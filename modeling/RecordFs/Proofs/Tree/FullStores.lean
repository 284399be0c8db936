import RecordFs.Proofs.Tree.Running
import RecordFs.Proofs.Volume.Observing

/-! Calls on a store that takes no more records. Nothing changes, so a call that would change what is told of an
entry fails with the fault of the store. -/
namespace RecordFs
open Outline Volume

/-- From now on every put fails. -/
def Disk.Full (disk : Disk) : Prop := ∀ k, disk.putFails k = true

theorem Disk.find?_run_of_full {α : Type} {disk : Disk} (full : disk.Full) (x : Access α) :
    (x.run backend disk).2.find? = disk.find? := by
  induction x generalizing disk with
  | done a => rfl
  | get id next ih => exact ih (disk.get id).1 (show (disk.get id).2.Full from full)
  | put id bytes next ih =>
    have full' : (disk.put id bytes).2.Full := fun k => (disk.like_put id bytes).putFails ▸ full k
    have same : (disk.put id bytes).2.find? = disk.find? := funext fun x => by
      rw [find?_put, full disk.puts, if_neg fun stored => Bool.noConfusion stored.1]
    exact (ih (disk.put id bytes).1 full').trans same
  | fresh next ih => exact ih disk.fresh.1 (show disk.fresh.2.Full from full)

/-- The root in memory is told by what is stored. -/
theorem World.Sound.root_eq {w w' : World} {r r' : Root} (h : w.Sound) (h' : w'.Sound) (find : w'.find = w.find)
    (cached : w.cache = some r) (cached' : w'.cache = some r') : r' = r := by
  have same {ρ : Type} [Stored ρ] (id : Id) : w'.get ρ id = w.get ρ id := get_of_find_eq (congrFun find id)
  obtain ⟨named, stored⟩ := h.root r cached
  obtain ⟨named', stored'⟩ := h'.root r' cached'
  rw [target, same] at named'
  have key : r'.key = r.key := Option.some.inj (named'.symm.trans named)
  rw [same, key, stored] at stored'
  obtain ⟨_, _⟩ := r'
  cases key
  cases stored'
  rfl

namespace Session
variable {s t : Session} {tree : Tree} {n : Nat} {now : Int64} {call : Call} {r : Except Failure Answer}

/-- The same state on a store that takes no more records. -/
def full (s : Session) : Session := s.failing (fun _ => false) (fun _ => true) s.disk.fault

theorem Reachable.full (h : s.Reachable) : s.full.Reachable := h.failing _ _ _

theorem kept_full (s : Session) : s.Kept s.full := ⟨rfl, rfl⟩

theorem full_full (s : Session) : s.full.disk.Full := fun _ => rfl

/-- A call stores nothing on a full store, whatever it replies. -/
theorem Reachable.kept_of_full (h : s.Reachable) (full : s.disk.Full) (performed : s.Performs now call r t) : s.Kept t := by
  have find : t.disk.find? = s.disk.find? := by
    have same := Disk.find?_run_of_full full ((call.perform now).run.run s.cache)
    have ran := congrArg (fun p => p.2.disk) performed.run
    exact ran ▸ same
  have later := h.called performed
  obtain ⟨r, cached⟩ := h.exists_cached
  obtain ⟨r', cached'⟩ := later.exists_cached
  refine ⟨find, ?_⟩
  rw [cached, cached', h.sound.root_eq later.sound find cached cached']

/-- When a store that was full takes records again, the volume shows what it did before. -/
theorem Displays.calm_of_full (h : s.Displays tree n) (performed : s.full.Performs now call r t) :
    t.calm.Displays tree (n + 2 * maxBlocks) := by
  have reachable := h.reachable.full
  have kept := s.kept_full.trans (reachable.kept_of_full s.full_full performed)
  have later := reachable.called performed
  obtain ⟨supply, issued⟩ := issued_of_perform (s := s.full) h.supply h.issued (Asks.call now call) performed.run
  exact ⟨later.failing _ _ _, ⟨later.sound, t.not_faulty_calm, kept.outline ▸ h.shows.outline⟩, supply, issued⟩

/-- On a full store a call fails after which a tree would tell something else of an entry. -/
theorem Displays.fails_of_full (h : s.Displays tree n) (few : n + 2 * maxBlocks < UInt64.size - 1)
    (now : Int64) (call : Call) (path : String) (changes : (tree.after now call).told path ≠ tree.told path) :
    ∃ f t, s.full.Performs now call (.error (.ofFault f)) t ∧ s.Kept t := by
  have reachable := h.reachable.full
  have supplied : (s.full.perform (call.perform now)).2.disk.Supplied :=
    Disk.supplied_of_frugal (Asks.call now call s.cache) h.supply h.issued few
  obtain ⟨⟨r, t⟩, ran⟩ : ∃ out, s.full.perform (call.perform now) = out := ⟨_, rfl⟩
  rw [ran] at supplied
  have performed : s.full.Performs now call r t := ⟨ran, supplied⟩
  have kept := reachable.kept_of_full s.full_full performed
  have follows := (performed.follows reachable.sound).2
  have sound := h.shows.sound.outline
  have agrees := h.shows.outline.agrees sound now call
  cases stepped : tree.step now call with
  | error e =>
    rw [Tree.after, stepped] at changes
    exact absurd rfl changes
  | ok outcome =>
    rw [Tree.after, stepped] at changes
    rw [stepped] at agrees
    cases r with
    | ok a =>
      obtain ⟨_, _, _, left⟩ := agrees _ _ follows.steady
      rw [kept.outline] at left
      exact absurd ((left.told sound path).trans (h.shows.outline.told sound path).symm) changes
    | error e =>
      obtain ⟨allowed, planned⟩ := agrees.exists_plan
      change Follows _ (s.world.outline.plan now call) _ _ _ at follows
      rw [planned] at follows
      obtain ⟨f, rfl⟩ := follows.fault_of_allowed
      exact ⟨f, t, performed, s.kept_full.trans kept⟩

end Session
end RecordFs
