import BatchingCache.Codec
/-!
# Entities

Two kinds of records that caches keep: vehicles with a whole speed, and readings of sensors;
and entities whose kind is chosen as one goes.
-/

namespace BatchingCache

structure Vehicle where
  vin : String
  speed : UInt32
  deriving DecidableEq, Repr

namespace Vehicle

structure Draft where
  vin : Option String := none
  speed : Option Nat := none

def record : Json.Record Draft Vehicle where
  title := "struct Vehicle"
  sizedTitle := "struct Vehicle with 2 elements"
  fields :=
    [.of "vin" (·.vin) (fun d s => { d with vin := some s }) Json.textField,
     .of "speed" (·.speed) (fun d n => { d with speed := some n })
       (Json.natField "u32" UInt32.size)]
  blank := {}
  build d :=
    match d.vin, d.speed with
    | none, _ => .error "vin"
    | _, none => .error "speed"
    | some vin, some speed => .ok ⟨vin, UInt32.ofNat speed⟩

def toJson (v : Vehicle) : Json :=
  .object [("vin", .text v.vin), ("speed", .int v.speed.toNat)]

def codec : Codec Vehicle where
  encode v := .ok v.toJson.print
  decode := Codec.ofJson record.parse

end Vehicle

structure Reading where
  sensor : String
  value : Binary64
  deriving DecidableEq, Repr

namespace Reading

structure Draft where
  sensor : Option String := none
  value : Option Binary64 := none

def record : Json.Record Draft Reading where
  title := "struct Reading"
  sizedTitle := "struct Reading with 2 elements"
  fields :=
    [.of "sensor" (·.sensor) (fun d s => { d with sensor := some s }) Json.textField,
     .of "value" (·.value) (fun d x => { d with value := some x }) Json.doubleField]
  blank := {}
  build d :=
    match d.sensor, d.value with
    | none, _ => .error "sensor"
    | _, none => .error "value"
    | some sensor, some value => .ok ⟨sensor, value⟩

def toJson (r : Reading) : Json :=
  .object [("sensor", .text r.sensor), ("value", .float r.value)]

def codec : Codec Reading where
  encode r := .ok r.toJson.print
  decode := Codec.ofJson record.parse

end Reading

inductive Entity where
  | json (v : Json)
  | vehicle (v : Vehicle)
  | reading (r : Reading)
  /-- An entity that cannot be written, and why. -/
  | unwritable (reason : String)

inductive EntityKind where
  | json
  | vehicle
  | reading
  deriving DecidableEq, Repr

namespace Entity

def encode : Entity → Except CodecError Bytes
  | .json v => Codec.json.encode v
  | .vehicle v => Vehicle.codec.encode v
  | .reading r => Reading.codec.encode r
  | .unwritable reason => .error (.encode reason)

def decode (kind : EntityKind) (bs : Bytes) : Except CodecError Entity :=
  match kind with
  | .json => (Codec.json.decode bs).map .json
  | .vehicle => (Vehicle.codec.decode bs).map .vehicle
  | .reading => (Reading.codec.decode bs).map .reading

def codec (kind : EntityKind) : Codec Entity := ⟨encode, decode kind⟩

/-- An entity as a JSON value, if it can be written. -/
def toJson : Entity → Json
  | .json v => v
  | .vehicle v => v.toJson
  | .reading r => r.toJson
  | .unwritable _ => .null

end Entity

end BatchingCache
