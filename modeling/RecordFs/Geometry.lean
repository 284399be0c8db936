/-! Sizes of everything kept in a store, and the bits of an entry's mode. -/
namespace RecordFs

def idSize : Nat := 16

/-- Bytes in one block of file content. -/
def blockSize : Nat := 4096

/-- Blocks that a block map names itself. -/
def directBlocks : Nat := 12

/-- Blocks that an indirect map names. -/
def indirectBlocks : Nat := 1024

def maxBlocks : Nat := directBlocks + indirectBlocks

/-- No file is longer than its blocks can hold. -/
def maxFileSize : Nat := maxBlocks * blockSize

/-- Entries that one directory can hold. -/
def dirEntries : Nat := 64

def maxNameLength : Nat := 255

def maxPathLength : Nat := 4096

/-- A slot is a length, room for the longest name, and an identifier. -/
def slotSize : Nat := 1 + maxNameLength + idSize

namespace Mode

def typeMask : UInt32 := 0o170000

def directory : UInt32 := 0o040000

def regular : UInt32 := 0o100000

def permissionMask : UInt32 := 0o7777

end Mode

end RecordFs
