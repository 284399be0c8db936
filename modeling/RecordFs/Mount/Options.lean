import RecordFs.Text.Quoted

/-! How a volume is mounted, and what the kernel is told of it. -/
namespace RecordFs.Mount

structure Options where
  /-- How long the kernel may keep what it was told, in milliseconds. -/
  ttlMillis : Nat := 1000
  /-- The name in the mount table. -/
  fsname : String := "kvfs"
  /-- Unmount when the process that serves it ends. -/
  autoUnmount : Bool := true
  allowOther : Bool := false
  readOnly : Bool := false
  deriving DecidableEq, Repr

inductive Flag where
  | fsname (name : String)
  | subtype (name : String)
  | defaultPermissions
  | autoUnmount
  | allowOther
  | readOnly
  | readWrite
  deriving DecidableEq, Repr

def Flag.describe : Flag → String
  | .fsname name => s!"FSName({Text.quote name})"
  | .subtype name => s!"Subtype({Text.quote name})"
  | .defaultPermissions => "DefaultPermissions"
  | .autoUnmount => "AutoUnmount"
  | .allowOther => "AllowOther"
  | .readOnly => "RO"
  | .readWrite => "RW"

/-- The kernel checks permissions itself, against the modes it is told. -/
def Options.flags (options : Options) : List Flag :=
  [.fsname options.fsname, .subtype "kvfs", .defaultPermissions] ++
    (if options.autoUnmount then [.autoUnmount] else []) ++
    (if options.allowOther then [.allowOther] else []) ++
    [if options.readOnly then .readOnly else .readWrite]

end RecordFs.Mount
