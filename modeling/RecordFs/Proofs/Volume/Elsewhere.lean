import RecordFs.Proofs.Volume.Effects

/-! A call changes no file but the one at its path, whether it succeeds or fails on the way. -/
namespace RecordFs
open Function Volume

/-- The path that a call is about. -/
def Volume.Call.path : Call → String
  | attributes path | names path | entries path | setMode path _ | setOwner path _ _ | setTimes path _ _
  | makeFile path _ _ _ | makeDirectory path _ _ _ | removeFile path | removeDirectory path
  | read path _ _ | write path _ _ | resize path _ | settle path => path

/-- The path of the entry that a call makes, removes or writes. -/
def Volume.Call.place? : Call → Option String
  | .makeFile path .. | .makeDirectory path .. | .removeFile path | .removeDirectory path
  | .write path .. | .resize path _ => some path
  | _ => none

/-- The path of the file that a call removes or writes. -/
def Volume.Call.altered? : Call → Option String
  | .removeFile path | .write path .. | .resize path _ => some path
  | _ => none

namespace Outline
variable {α β : Type} {faulty : Prop} {o o' : Outline} {path : String} {now : Int64} {segments : List String}

section carried
variable {r : Except Failure α} {answer : α} {i j parent : Inode} {d : Directory} {place : Opening}

theorem file?_of_alike (h : o.Sound) (found : o.walk path segments = .ok i) (alike : i.Alike j)
    (carried : Carried faulty [.inode j] answer o r o') (other : List String) : o'.file? other = o.file? other := by
  have same := h.file?_setInode found alike.self alike.data alike.isDirectory fun (_ : other = segments) => .inr alike.size
  rcases carried.cons with rfl | ⟨_, rest⟩
  · rfl
  · rw [rest.nil]
    exact same

theorem file?_of_make (h : o.Sound) (opens : place.Open o path) (new : o.New i)
    (carried : Carried faulty (place.changes now i) answer o r o') (other : segments ≠ Path.segments path) :
    o'.file? segments = o.file? segments := by
  rw [Opening.changes] at carried
  rcases carried.cons with rfl | ⟨h₁, rest⟩
  · rfl
  have same₁ : (o.apply (emptyData i.data i.kind)).file? segments = o.file? segments := by
    have walk := walk_emptyData h new "" segments
    cases kind : i.kind with
    | directory => exact file?_congr (kind ▸ walk) rfl
    | file => exact h.file?_setContent_new new.data.data
  rcases rest.cons with rfl | ⟨h₂, rest⟩
  · exact same₁
  have same₂ := (file?_congr ((walk_unlinked h h₁ new segments).trans (walk_emptyData h new "" segments).symm) rfl).trans same₁
  have awaited := awaited_of_new h h₁ new opens
  rcases rest.cons with rfl | ⟨h₃, rest⟩
  · exact same₂
  have same₃ := (awaited.file?_linked h₂ other).trans same₂
  rcases rest.cons with rfl | ⟨_, rest⟩
  · exact same₃
  rw [rest.nil]
  exact (h₃.file?_setInode (j := touched now place.parent _) (awaited.found_linked h₂) rfl rfl rfl fun _ => .inl opens.is).trans same₃

theorem file?_of_removal {k : Fin dirEntries} {n : Nat} (h : o.Sound) (removal : Removal o path parent d k)
    (carried : Carried faulty [.table (d.put k {}), .inode (touched now parent n)] answer o r o')
    (other : segments ≠ Path.segments path) : o'.file? segments = o.file? segments := by
  rcases carried.cons with rfl | ⟨h₁, rest⟩
  · rfl
  have same₁ := removal.file?_removed h other
  rcases rest.cons with rfl | ⟨_, rest⟩
  · exact same₁
  rw [rest.nil]
  exact (h₁.file?_setInode (j := touched now parent n) (removal.found_removed h) rfl rfl rfl fun _ => .inl removal.is).trans same₁

theorem file?_of_storing {old : Nat → UInt8} {data : ByteArray} {offset size : Nat} {a b : β} {changes : List Change}
    (h : o.Sound) (found : o.walk path (Path.segments path) = .ok i)
    (planned : storing now i old data offset size b changes a) (carried : Carried faulty changes answer o r o')
    (other : segments ≠ Path.segments path) : o'.file? segments = o.file? segments := by
  obtain ⟨_, torn, filled, _, _, rfl⟩ := planned
  rcases carried.cons with rfl | ⟨h₁, rest⟩
  · rfl
  have same₁ := h.file?_setContent_of_ne torn found other
  rcases rest.cons with rfl | ⟨h₂, rest⟩
  · exact same₁
  have same₂ := (h₁.file?_setContent_of_ne filled found other).trans same₁
  rcases rest.cons with rfl | ⟨_, rest⟩
  · exact same₂
  rw [rest.nil]
  exact (h₂.file?_setInode (j := touched now i size) found rfl rfl rfl fun here => absurd here other).trans same₂

end carried

namespace Follows
variable {r : Except Failure β}

theorem eq_of_query {g : α → β} {answer : Except Failure α}
    (follows : Follows faulty (Plan.map g <$> planQuery answer) o r o') : o' = o := by
  rcases follows.carried with same | ⟨plan, changes, a, planned, allowed, carried⟩
  · exact same
  · obtain ⟨_, _, same⟩ := bind_eq_ok.mp planned
    cases same
    obtain ⟨rfl, _⟩ := allowed
    exact carried.nil

theorem answer_of_query {g : α → β} {answer : Except Failure α} {b : β}
    (follows : Follows faulty (Plan.map g <$> planQuery answer) o (.ok b) o') : ∃ a, answer = .ok a ∧ b = g a := by
  obtain ⟨_, _, a, planned, allowed, carried⟩ := follows.succeeded
  obtain ⟨_, looked, same⟩ := bind_eq_ok.mp planned
  cases same
  obtain ⟨rfl, rfl⟩ := allowed
  exact ⟨a, looked, carried.nil_ok.1⟩

end Follows

/-- What a call may come to: nothing, or the first of the changes of a plan, or all of them. -/
inductive Effect (faulty : Prop) (now : Int64) (call : Call) (o : Outline) (r : Except Failure Answer) (o' : Outline) : Prop where
  | unchanged (same : o' = o)
  | changed {i j : Inode} {answer : Answer} (found : o.walk call.path (Path.segments call.path) = .ok i) (alike : i.Alike j)
      (carried : Carried faulty [.inode j] answer o r o')
  | made {place : Opening} {i : Inode} {answer : Answer} (named : call.place? = some call.path)
      (opens : place.Open o call.path) (new : o.New i) (carried : Carried faulty (place.changes now i) answer o r o')
  | removed {parent : Inode} {d : Directory} {k : Fin dirEntries} {n : Nat} {answer : Answer}
      (named : call.place? = some call.path) (removal : Removal o call.path parent d k)
      (carried : Carried faulty [.table (d.put k {}), .inode (touched now parent n)] answer o r o')
  | stored {α : Type} {i : Inode} {old : Nat → UInt8} {data : ByteArray} {offset size : Nat} {a b : α} {changes : List Change}
      {answer : Answer} (named : call.place? = some call.path) (found : o.walk call.path (Path.segments call.path) = .ok i)
      (planned : storing now i old data offset size b changes a) (carried : Carried faulty changes answer o r o')
  | shortened {i : Inode} {n : Nat} {answer : Answer} (named : call.place? = some call.path)
      (found : o.walk call.path (Path.segments call.path) = .ok i)
      (carried : Carried faulty [.inode (touched now i n)] answer o r o')

section effect
variable {call : Call} {r : Except Failure Answer}

theorem effect_of_change {g : Unit → Answer} {f : Inode → Inode} (h : o.Sound) (alike : ∀ i : Inode, i.Typed → i.Alike (f i))
    (follows : Follows faulty (Plan.map g <$> o.planChange now call.path f) o r o') : Effect faulty now call o r o' := by
  rcases follows.carried with same | ⟨plan, changes, a, planned, allowed, carried⟩
  · exact .unchanged same
  · obtain ⟨i, resolved, same⟩ := bind_eq_ok.mp planned
    cases same
    obtain ⟨rfl, _⟩ := allowed
    have kept := (alike i (h.inode _ _ (h.resolve_stored resolved)).mode).changed now
    exact .changed (resolve_eq_ok.mp resolved).2 kept carried

theorem effect_of_planMake {g : Attributes → Answer} {mode uid gid : UInt32} (named : call.place? = some call.path)
    (follows : Follows faulty (Plan.map g <$> o.planMake now call.path mode uid gid) o r o') :
    Effect faulty now call o r o' := by
  rcases follows.carried with same | ⟨plan, changes, a, planned, allowed, carried⟩
  · exact .unchanged same
  · obtain ⟨place, opens, same⟩ := bind_eq_ok.mp planned
    cases same
    obtain ⟨self, data, new, rfl, _⟩ := allowed
    exact .made named (open_of_opening opens) new carried

theorem effect_of_removal {g : Unit → Answer} {plan : Except Failure (Plan Unit)} (named : call.place? = some call.path)
    (removes : ∀ {allowed}, plan = .ok allowed → ∃ parent d k, Removal o call.path parent d k ∧
      allowed = .just [.table (d.put k {}), .inode (touched now parent (d.put k {}).count)] ())
    (follows : Follows faulty (Plan.map g <$> plan) o r o') : Effect faulty now call o r o' := by
  rcases follows.carried with same | ⟨allowed, changes, a, planned, allows, carried⟩
  · exact .unchanged same
  · obtain ⟨parent, d, k, removal, rfl⟩ := removes planned
    obtain ⟨rfl, _⟩ := allows
    exact .removed named removal carried

end effect

/-- Every call comes to one of these. -/
theorem Follows.effect {call : Call} {r : Except Failure Answer} (h : o.Sound)
    (follows : Follows faulty (o.plan now call) o r o') : Effect faulty now call o r o' := by
  cases call with
  | attributes path | names path | entries path | read path offset length => exact .unchanged follows.eq_of_query
  | setMode path mode => exact effect_of_change h (fun _ => Inode.alike_mode mode) follows
  | setOwner path uid gid => exact effect_of_change h (fun _ => Inode.alike_owner _ _) follows
  | setTimes path atime mtime => exact effect_of_change h (fun _ => Inode.alike_times _ _) follows
  | makeFile path mode uid gid | makeDirectory path mode uid gid => exact effect_of_planMake rfl follows
  | removeFile path => exact effect_of_removal rfl removal_of_removeFile follows
  | removeDirectory path => exact effect_of_removal rfl removal_of_removeDirectory follows
  | write path data offset =>
    rcases follows.carried with same | ⟨plan, changes, a, planned, allowed, carried⟩
    · exact .unchanged same
    · obtain ⟨_, i, found, ⟨_, rfl⟩ | ⟨_, old, _, rfl⟩⟩ := planWrite_eq_ok planned
      · obtain ⟨rfl, _⟩ := allowed
        exact .unchanged carried.nil
      · exact .stored rfl (walk_of_resolveFile found) allowed carried
  | resize path size =>
    rcases follows.carried with same | ⟨plan, changes, a, planned, allowed, carried⟩
    · exact .unchanged same
    · obtain ⟨_, i, found, ⟨_, old, _, rfl⟩ | ⟨_, rfl⟩⟩ := planResize_eq_ok planned
      · exact .stored rfl (walk_of_resolveFile found) allowed carried
      · obtain ⟨rfl, _⟩ := allowed
        exact .shortened rfl (walk_of_resolveFile found) carried
  | settle path =>
    rcases follows with ⟨_, _, same⟩ | ⟨_, _, ⟨rfl, _⟩, carried⟩
    · exact .unchanged same
    · exact .unchanged carried.nil

/-- What a call leaves at other paths. -/
theorem Follows.file?_eq {call : Call} {r : Except Failure Answer} (h : o.Sound)
    (follows : Follows faulty (o.plan now call) o r o') (apart : ∀ p ∈ call.place?, segments ≠ Path.segments p) :
    o'.file? segments = o.file? segments := by
  cases follows.effect h with
  | unchanged same => rw [same]
  | changed found alike carried => exact file?_of_alike h found alike carried segments
  | made named opens new carried => exact file?_of_make h opens new carried (apart _ named)
  | removed named removal carried => exact file?_of_removal h removal carried (apart _ named)
  | stored named found planned carried => exact file?_of_storing h found planned carried (apart _ named)
  | shortened named found carried =>
    rcases carried.cons with same | ⟨_, rest⟩
    · rw [same]
    · rw [rest.nil]
      exact h.file?_setInode (j := touched now _ _) found rfl rfl rfl fun here => absurd here (apart _ named)

/-- There is no file yet where an entry can be made. -/
theorem file?_eq_none_of_planMake {mode uid gid : UInt32} {plan : Plan Attributes}
    (planned : o.planMake now path mode uid gid = .ok plan) : o.file? (Path.segments path) = none := by
  obtain ⟨place, opened, _⟩ := bind_eq_ok.mp planned
  have opens := open_of_opening opened
  have lost : o.walk path (Path.segments path) = .error (.notFound path) := by
    rw [← segments_of_lastName opens.last, walk_snoc, opens.found, ok_bind, child_of_table opens.is opens.table, opens.new]
  exact file?_of_error lost

theorem file?_eq_none_of_planRemoveDirectory {plan : Plan Unit} (planned : o.planRemoveDirectory now path = .ok plan) :
    o.file? (Path.segments path) = none := by
  obtain ⟨target, found, planned⟩ := bind_eq_ok.mp planned
  obtain ⟨table, listed, _⟩ := bind_eq_ok.mp planned
  rw [file?_of_walk (resolve_eq_ok.mp found).2, if_pos (directory_eq_ok.mp listed).1]

/-- A file stays when it is neither removed nor written; nothing is made in its place. -/
theorem Follows.file?_kept {call : Call} {r : Except Failure Answer} {c : ByteArray} (h : o.Sound)
    (follows : Follows faulty (o.plan now call) o r o') (there : o.file? segments = some c)
    (apart : ∀ p ∈ call.altered?, segments ≠ Path.segments p) : o'.file? segments = some c := by
  by_cases other : ∀ p ∈ call.place?, segments ≠ Path.segments p
  · rw [follows.file?_eq h other, there]
  simp only [not_forall, not_not] at other
  obtain ⟨path, named, rfl⟩ := other
  cases call with
  | makeFile p mode uid gid | makeDirectory p mode uid gid =>
    cases named
    rcases follows.carried with rfl | ⟨plan, changes, a, planned, _⟩
    · exact there
    · rw [file?_eq_none_of_planMake planned] at there
      cases there
  | removeDirectory p =>
    cases named
    rcases follows.carried with rfl | ⟨plan, changes, a, planned, _⟩
    · exact there
    · rw [file?_eq_none_of_planRemoveDirectory planned] at there
      cases there
  | removeFile p | write p data offset | resize p size => exact absurd rfl (apart path named)
  | attributes | names | entries | setMode | setOwner | setTimes | read | settle => cases named

end Outline
end RecordFs
