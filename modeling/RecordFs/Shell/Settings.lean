import RecordFs.Mount.Options
import RecordFs.Toml.Document

/-! Settings that a configuration document gives: a store, and how to mount it. What the document
leaves out keeps its default; a key that is no setting is refused. -/
namespace RecordFs.Shell

open Toml (Key Problem Scalar Table Value)

structure Settings where
  store : Option String := none
  mount : Mount.Options := {}
  deriving DecidableEq, Repr

namespace Settings

private def describe : Value → String
  | .scalar _ (.text s) => s!"string {Text.quote s}"
  | .scalar _ (.integer n) =>
    let kind := if n < -0x8000000000000000 then " as i128"
      else if n < UInt64.size then ""
      else if n < 0x80000000000000000000000000000000 then " as i128"
      else " as u128"
    s!"integer `{n}`{kind}"
  | .scalar _ (.decimal s) => s!"floating point `{s}`"
  | .scalar _ (.boolean b) => s!"boolean `{b}`"
  | .scalar _ (.unkept _) => "number"
  | .scalar _ .moment => "map"
  | .array .. => "sequence"
  | .table .. => "map"

/-- A value of another type than expected. A number that is not kept has no type at all. -/
private def mismatch {α : Type} (value : Value) (expected : String) : Except Problem α :=
  .error ⟨value.place, match value with
    | .scalar _ (.unkept true) => "integer number overflowed"
    | .scalar _ (.unkept false) => "floating-point number overflowed"
    | _ => s!"invalid type: {describe value}, expected {expected}"⟩

private def text (expected : String) : Value → Except Problem String
  | .scalar _ (.text s) => .ok s
  | value => mismatch value expected

private def boolean : Value → Except Problem Bool
  | .scalar _ (.boolean b) => .ok b
  | value => mismatch value "a boolean"

private def word : Value → Except Problem Nat
  | .scalar place (.integer n) =>
    if 0 ≤ n ∧ n.toNat < UInt64.size then .ok n.toNat
    else .error ⟨place, s!"invalid value: integer `{n}`, expected u64"⟩
  | value => mismatch value "u64"

/-- A named setting of `σ`, and how a value changes it. -/
abbrev Setting (σ : Type) := String × (Value → σ → Except Problem σ)

private def unknown {α σ : Type} (fields : List (Setting σ)) (key : Key) : Except Problem α :=
  let known := match fields.map fun f => s!"`{f.1}`" with
    | [one, other] => s!"{one} or {other}"
    | names => "one of " ++ ", ".intercalate names
  .error ⟨key.place, s!"unknown field `{key.name}`, expected {known}"⟩

/-- Settings under their names. They are looked at in the order of their names. -/
private def named {σ : Type} (fields : List (Setting σ)) (table : Table) (start : σ) :
    Except Problem σ :=
  (table.mergeSort fun a b => !(b.1.name < a.1.name)).foldlM (fun settings (key, value) =>
    match fields.find? (·.1 = key.name) with
    | some field => field.2 value settings
    | none => unknown fields key) start

/-- Settings without names, each in its place. More values than settings are not looked at. -/
private def inOrder {σ : Type} (fields : List (Setting σ)) (values : List Value) (start : σ) :
    Except Problem σ :=
  (fields.zip values).foldlM (fun settings (field, value) => field.2 value settings) start

private def mountFields : List (Setting Mount.Options) :=
  [("attr_ttl_ms", fun v o => return { o with ttlMillis := ← word v }),
    ("fsname", fun v o => return { o with fsname := ← text "a string" v }),
    ("auto_unmount", fun v o => return { o with autoUnmount := ← boolean v }),
    ("allow_other", fun v o => return { o with allowOther := ← boolean v })]

private def mounting : Value → Except Problem Mount.Options
  | .table _ _ entries => named mountFields entries {}
  | .array _ _ items => inOrder mountFields items {}
  | value => mismatch value "struct MountSettings"

private def fields : List (Setting Settings) :=
  [("store", fun v s => return { s with store := some (← text "path string" v) }),
    ("mount", fun v s => return { s with mount := ← mounting v })]

/-- The settings in a document, or an account of what is wrong with it. -/
def read (document : String) : Except String Settings :=
  match Toml.parse document >>= fun table => named fields table {} with
  | .ok settings => .ok settings
  | .error problem => .error (problem.describe document)

end Settings
end RecordFs.Shell
