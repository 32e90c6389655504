import BatchingCache.Error
import BatchingCache.Json.Record
/-!
# Codecs

How entities are written as bytes for the store and read back: plain texts as UTF-8, all else
as JSON.
-/

namespace BatchingCache

/-- A way to write and read entities of a type. -/
structure Codec (α : Type) where
  encode : α → Except CodecError Bytes
  decode : Bytes → Except CodecError α

namespace Codec

def ofJson {α : Type} (parse : Bytes → Except Json.Fault α) (bs : Bytes) : Except CodecError α :=
  (parse bs).mapError fun f => .decode (f.message bs)

def text : Codec String where
  encode s := .ok (Utf8.encode s)
  decode bs := (Utf8.decode bs).mapError fun f => .decode f.message

def json : Codec Json where
  encode v := .ok v.print
  decode := ofJson Json.parse

end Codec

end BatchingCache
