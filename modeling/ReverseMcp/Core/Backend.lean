import ReverseMcp.Core.Error

/-!
# The records of the backend interface

The data types that `IdaBackend` methods take and return, with their serialized forms.
-/

namespace ReverseMcp

open Rust

/-- A function entry. -/
structure FunctionInfo where
  ea_start : U64
  ea_end : U64
  name : String
  size : U64
deriving DecidableEq

/-- Serialized form of a function entry. -/
def FunctionInfo.to_value (f : FunctionInfo) : Json :=
  .object [("ea_start", .u64 f.ea_start), ("ea_end", .u64 f.ea_end), ("name", f.name),
    ("size", .u64 f.size)]

/-- A cross-reference. -/
structure XrefInfo where
  src : U64
  dst : U64
  kind : String
deriving DecidableEq

/-- Serialized form of a cross-reference. -/
def XrefInfo.to_value (x : XrefInfo) : Json :=
  .object [("from", .u64 x.src), ("to", .u64 x.dst), ("kind", x.kind)]

/-- Parameters of a graph request. -/
structure GraphParams where
  kind : String
  depth : U32
  max_nodes : ℕ
  max_edges : ℕ

/-- A string of the database. -/
structure StringInfo where
  ea : U64
  value : String
  length : ℕ
deriving DecidableEq

/-- Serialized form of a string entry. -/
def StringInfo.to_value (s : StringInfo) : Json :=
  .object [("ea", .u64 s.ea), ("value", s.value), ("length", .nat s.length)]

/-- A segment. -/
structure SegmentInfo where
  name : String
  start : U64
  stop : U64
  perms : String
deriving DecidableEq

/-- Serialized form of a segment. -/
def SegmentInfo.to_value (s : SegmentInfo) : Json :=
  .object [("name", s.name), ("start", .u64 s.start), ("end", .u64 s.stop), ("perms", s.perms)]

/-- One disassembled instruction. -/
structure InsnInfo where
  ea : U64
  mnemonic : String
  operands : String
  text : String
deriving DecidableEq

/-- Serialized form of an instruction. -/
def InsnInfo.to_value (i : InsnInfo) : Json :=
  .object [("ea", .u64 i.ea), ("mnemonic", i.mnemonic), ("operands", i.operands),
    ("text", i.text)]

/-- What a mutation reports. -/
structure MutationOutcome where
  changed : Bool
  revision_after : U64
  detail : Json
deriving DecidableEq

/-- Serialized form of a mutation outcome. -/
def MutationOutcome.to_value (o : MutationOutcome) : Json :=
  .object [("changed", o.changed), ("revision_after", .u64 o.revision_after),
    ("detail", o.detail)]

end ReverseMcp
