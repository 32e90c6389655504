/-!
# Byte strings

Stores keep values as byte strings, and entities are written as byte strings.
Two of them are compared byte by byte.
-/

namespace BatchingCache

abbrev Bytes := List UInt8

end BatchingCache
