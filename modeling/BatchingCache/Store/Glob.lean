import BatchingCache.Bytes
/-!
# Patterns

A pattern is matched against a whole byte string: a star stands for any bytes, a question mark
for one byte, and a backslash takes the byte after it literally.
-/

namespace BatchingCache.Glob

def suffixes {α : Type} : List α → List (List α)
  | [] => [[]]
  | x :: xs => (x :: xs) :: suffixes xs

/-- Whether a text matches a pattern.  A backslash at the end of a pattern is literal. -/
def accepts : Bytes → Bytes → Bool
  | [], text => text.isEmpty
  | 0x2A :: rest, text => (suffixes text).any (accepts rest)
  | 0x3F :: rest, text =>
    match text with
    | [] => false
    | _ :: text => accepts rest text
  | 0x5C :: c :: rest, text =>
    match text with
    | [] => false
    | d :: text => d = c && accepts rest text
  | c :: rest, text =>
    match text with
    | [] => false
    | d :: text => d = c && accepts rest text

end BatchingCache.Glob
