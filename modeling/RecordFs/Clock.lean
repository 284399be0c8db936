/-! The clock of the machine. Whoever reads it twice need not see the same time. -/
namespace RecordFs

/-- What the clock shows at each of the moments at which it may be read. -/
structure Clock (Moment : Type) where
  shows : Moment → Int64

namespace Clock
variable {Moment : Type}

instance : CoeFun (Clock Moment) fun _ => Moment → Int64 := ⟨shows⟩

/-- A clock that stands still. -/
def still (time : Int64) : Clock Moment := ⟨fun _ => time⟩

instance : Coe Int64 (Clock Moment) := ⟨still⟩

end Clock
end RecordFs
