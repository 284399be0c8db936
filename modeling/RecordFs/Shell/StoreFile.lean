import RecordFs.Store.Disk

/-! A store as one file: a mark, then every put in the order in which they were made, each as its
key, the length of the bytes and the bytes. A put is made lasting by adding to the end. -/
namespace RecordFs.Shell.StoreFile

def mark : ByteArray := "records\n".toUTF8

def entry (id : Id) (bytes : ByteArray) : ByteArray :=
  (id.bytes ++ Numeral.digits 4 bytes.size).toByteArray ++ bytes

private def replay (file : ByteArray) (start : Nat) (records : Records) : Option Records :=
  if start = file.size then some records
  else
    let body := start + idSize + 4
    let head := (file.extract start body).toList
    let stop := body + Numeral.value (head.drop idSize)
    if _h : stop ≤ file.size then
      replay file stop (records.put (Id.ofBytes (head.take idSize)) (file.extract body stop))
    else none
termination_by file.size - start
decreasing_by
  have : start + 4 < stop := by simp only [stop, body, idSize]; omega
  omega

/-- The records in a file; nothing when the file is no store or ends early. An empty file is a store
without records. -/
def read? (file : ByteArray) : Option Records :=
  if file.isEmpty then some {}
  else if file.extract 0 mark.size = mark then replay file mark.size {}
  else none

end RecordFs.Shell.StoreFile
