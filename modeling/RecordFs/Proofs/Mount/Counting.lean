import RecordFs.Proofs.Mount.Answering

/-! How often the kernel was told of a number. The table counts exactly the replies that carry an entry
and have not been taken back, so a number stays known as long as the kernel holds it. -/
namespace RecordFs.Mount

/-- A request and its reply. -/
structure Exchange where
  request : Request
  reply : Except Failure Response

/-- What matters of an exchange to the count of a number. -/
inductive Notice where
  | told (number : Nat)
  | forgot (number count : Nat)
  deriving DecidableEq

/-- Replies that carry an entry are those of a lookup and those to making a file or a directory. -/
def Exchange.notices (x : Exchange) : List Notice :=
  match x.request, x.reply with
  | .lookup _ _, .ok (.entry a) => [.told a.number]
  | .makeDirectory _ _ _ _ _, .ok (.entry a) => [.told a.number]
  | .makeFile _ _ _ _ _, .ok (.made a) => [.told a.number]
  | .forget nodes, .ok _ => nodes.map fun (number, count) => .forgot number count
  | _, _ => []

theorem Exchange.notices_error (request : Request) (e : Failure) : Exchange.notices ⟨request, .error e⟩ = [] := by
  cases request <;> rfl

theorem Exchange.notices_plain {request : Request} (plain : request.plain) (reply : Except Failure Response) :
    Exchange.notices ⟨request, reply⟩ = [] := by
  cases request with
  | attributes | change | openNode | read | write | flush | release => rfl
  | _ => cases plain

def notices (log : List Exchange) : List Notice := log.flatMap Exchange.notices

/-- How often the kernel was told of any number. -/
def lookups (notices : List Notice) : Nat := notices.countP fun
  | .told _ => true
  | .forgot _ _ => false

/-- How often the kernel was told of a number, and how many of these lookups it gave back. -/
structure Account where
  told : Nat := 0
  returned : Nat := 0
  deriving DecidableEq

namespace Account

def held (a : Account) : Nat := a.told - a.returned

/-- Lookups are given back only if so many are held. -/
def after (number : Nat) (a : Account) : Notice → Account
  | .told n => if n = number then { a with told := a.told + 1 } else a
  | .forgot n count => if n = number ∧ count ≤ a.held then { a with returned := a.returned + count } else a

def run (number : Nat) (a : Account) (notices : List Notice) : Account := notices.foldl (after number) a

end Account

def account (number : Nat) (notices : List Notice) : Account := Account.run number {} notices

/-- How many lookups of a number the kernel wanted to give back. -/
def sent (number : Nat) : List Notice → Nat
  | [] => 0
  | .told _ :: rest => sent number rest
  | .forgot n count :: rest => (if n = number then count else 0) + sent number rest

section account
variable (number : Nat) (a : Account) (front back : List Notice)

theorem Account.run_append : a.run number (front ++ back) = (a.run number front).run number back := List.foldl_append

theorem Account.told_run : (a.run number front).told = a.told + front.count (.told number) := by
  induction front generalizing a with
  | nil => rfl
  | cons notice rest ih =>
    refine (ih (a.after number notice)).trans ?_
    rw [List.count_cons]
    cases notice with
    | told n =>
      by_cases same : n = number
      · simp only [after, same, if_true, beq_self_eq_true]
        omega
      · simp [after, same]
    | forgot n count =>
      simp only [after]
      split <;> simp

theorem told_account : (account number front).told = front.count (.told number) := by
  rw [account, Account.told_run, Nat.zero_add]

theorem sent_append : sent number (front ++ back) = sent number front + sent number back := by
  induction front with
  | nil => exact (Nat.zero_add _).symm
  | cons notice rest ih =>
    cases notice with
    | told n => exact ih
    | forgot n count =>
      rw [List.cons_append, sent, sent, ih, Nat.add_assoc]

theorem count_told_le : front.count (.told number) ≤ lookups front := by
  rw [List.count, lookups]
  refine List.countP_mono_left fun notice _ same => ?_
  cases eq_of_beq same
  rfl

end account

/-- The table counts what is held of a number, and a number that it does not know is not held. -/
structure Balanced (t : NodeTable) (number : Nat) (a : Account) : Prop where
  known : ∀ node, t.node? number = some node → node.lookups + a.returned = a.told
  unknown : t.node? number = none → a.returned = a.told

namespace Balanced
variable {t u : NodeTable} {number : Nat} {a : Account} {path : String} {kind : EntryKind}

theorem of_some {node : Node} (found : t.node? number = some node) (counted : node.lookups + a.returned = a.told) :
    Balanced t number a where
  known now present := by
    cases found.symm.trans present
    exact counted
  unknown missing := absurd (found.symm.trans missing) nofun

theorem of_none (missing : t.node? number = none) (even : a.returned = a.told) : Balanced t number a where
  known _ present := absurd (missing.symm.trans present) nofun
  unknown _ := even

theorem of_node? (b : Balanced t number a) (same : u.node? number = t.node? number) : Balanced u number a := by
  constructor
  · rw [same]
    exact b.known
  · rw [same]
    exact b.unknown

theorem lookUp (b : Balanced t number a) (sound : t.Sound)
    (few : (a.after number (.told (t.lookUp path kind).1)).told < UInt64.size) :
    Balanced (t.lookUp path kind).2 number (a.after number (.told (t.lookUp path kind).1)) := by
  rw [Account.after] at few ⊢
  by_cases here : (t.lookUp path kind).1 = number
  · rw [if_pos here] at few ⊢
    change a.told + 1 < UInt64.size at few
    rcases sound.node?_lookUp path kind with ⟨node, found, after⟩ | ⟨new, after⟩
    · rw [here] at found after
      have counted := b.known node found
      refine of_some after ?_
      rw [Node.lookups_remember (by omega)]
      change node.lookups + 1 + a.returned = a.told + 1
      omega
    · rw [here] at new after
      have counted := b.unknown new
      refine of_some after ?_
      change 1 + a.returned = a.told + 1
      omega
  · rw [if_neg here]
    exact b.of_node? (NodeTable.node?_lookUp_other (Ne.symm here))

theorem mention (b : Balanced t number a) (sound : t.Sound) : Balanced (t.mention path kind).2 number a := by
  rcases sound.node?_mention path kind number with same | ⟨new, after⟩
  · exact b.of_node? same
  · exact of_some after ((Nat.zero_add _).trans (b.unknown new))

theorem forget_unknown (b : Balanced t number a) (unknown : t.node? number = none) (count : Nat) :
    Balanced (t.forget number count).2 number (a.after number (.forgot number count)) := by
  have even := b.unknown unknown
  have none_held : a.held = 0 := by
    rw [Account.held]
    omega
  rw [NodeTable.forget_unknown unknown, Account.after, none_held]
  by_cases nothing : count = 0
  · rw [nothing, if_pos ⟨rfl, Nat.le_refl 0⟩]
    exact b
  · rw [if_neg (by omega)]
    exact b

theorem forget_known (b : Balanced t number a) (root : number ≠ rootNumber) {node : Node}
    (found : t.node? number = some node) (count : Nat) :
    Balanced (t.forget number count).2 number (a.after number (.forgot number count)) := by
  have counted := b.known node found
  have held : a.held = node.lookups := by
    rw [Account.held]
    omega
  rw [Account.after, held]
  rcases Nat.lt_trichotomy count node.lookups with enough | last | fewer
  · rw [if_pos ⟨rfl, Nat.le_of_lt enough⟩]
    refine of_some (NodeTable.forget_of_gt root found enough).2 ?_
    rw [Node.lookups_release (Nat.le_of_lt enough)]
    change node.lookups - count + (a.returned + count) = a.told
    omega
  · subst last
    rw [if_pos ⟨rfl, Nat.le_refl _⟩]
    refine of_none (NodeTable.node?_forget_of_true (NodeTable.forget_eq_true.mpr ⟨root, node, found, rfl⟩)) ?_
    change a.returned + node.lookups = a.told
    omega
  · rw [if_neg (by omega)]
    exact b.of_node? ((NodeTable.forget_of_lt root found fewer).2.trans found.symm)

/-- The table accepts a count just when so many lookups are held. -/
theorem forget (b : Balanced t number a) (root : number ≠ rootNumber) (n count : Nat) :
    Balanced (t.forget n count).2 number (a.after number (.forgot n count)) := by
  by_cases here : n = number
  · subst here
    cases found : t.node? n with
    | none => exact b.forget_unknown found count
    | some node => exact b.forget_known root found count
  · rw [Account.after, if_neg fun same => here same.1]
    exact b.of_node? (NodeTable.node?_forget_other (Ne.symm here))

theorem forgetAll (b : Balanced t number a) (root : number ≠ rootNumber) (nodes : List (Nat × Nat)) :
    Balanced (t.forgetAll nodes) number (a.run number (nodes.map fun (number, count) => .forgot number count)) := by
  induction nodes generalizing t a with
  | nil => exact b
  | cons entry rest ih => exact ih (b.forget root entry.1 entry.2)

theorem mentionAll (b : Balanced t number a) (sound : t.Sound) (entries : List (String × EntryKind)) :
    Balanced (t.mentionAll entries) number a := by
  induction entries generalizing t with
  | nil => exact b
  | cons entry rest ih => exact ih (b.mention sound) (sound.step (t.step_mention entry.1 entry.2))

theorem answers {request : Request} {r : Except Failure Response} (b : Balanced t number a) (sound : t.Sound)
    (root : number ≠ rootNumber) (h : Answers t request r u)
    (few : (a.run number (Exchange.notices ⟨request, r⟩)).told < UInt64.size) :
    Balanced u number (a.run number (Exchange.notices ⟨request, r⟩)) := by
  cases h with
  | refused => rwa [Exchange.notices_error]
  | plain _ _ plain => rwa [Exchange.notices_plain plain]
  | forgot nodes => exact b.forgetAll root nodes
  | listed _ _ _ _ entries => exact b.mentionAll sound entries
  | lookedUp _ _ _ _ told same | madeFile _ _ _ _ _ _ told same | madeDirectory _ _ _ _ _ _ told same =>
    change (a.after number (.told told.number)).told < UInt64.size at few
    change Balanced _ number (a.after number (.told told.number))
    rw [same] at few ⊢
    exact b.lookUp sound few
  | removedFile | removedDirectory => exact b.of_node? (congrFun (NodeTable.node?_invalidate _ _) number)

end Balanced

namespace Account
variable {number : Nat} {a : Account} {notices : List Notice}

/-- A kernel that never wants to give back more than it was told gives back all that it wants to. -/
theorem returned_of_honest (honest : ∀ front, front <+: notices → sent number front ≤ front.count (.told number)) :
    (account number notices).returned = sent number notices := by
  induction notices using List.reverseRecOn with
  | nil => rfl
  | append_singleton front last ih =>
    have before := ih fun part shorter => honest part (shorter.trans (List.prefix_append front [last]))
    have whole := honest _ (List.prefix_refl _)
    have told := told_account number front
    rw [account, run_append]
    change (after number (account number front) last).returned = _
    rw [sent_append] at whole ⊢
    rw [List.count_append] at whole
    cases last with
    | told n =>
      rw [← before, after]
      split <;> rfl
    | forgot n count =>
      rw [after, held, before, told, sent, sent]
      rw [sent, sent] at whole
      by_cases same : n = number
      · subst same
        simp only [if_true, Nat.add_zero] at whole ⊢
        have none_told : [Notice.forgot n count].count (.told n) = 0 := List.count_eq_zero.mpr (by simp)
        rw [none_told] at whole
        rw [if_pos ⟨trivial, by omega⟩]
      · simp only [same, false_and, if_false, Nat.add_zero]
        exact before

end Account

namespace Mounted
variable {log : List Exchange} {m m' : Mounted} {now : Clock Reading} {request : Request} {r : Except Failure Response} {number : Nat}

/-- Requests have been answered one after another since the volume was mounted. Whatever becomes of
the volume in between, only they reach the table of numbers. -/
inductive Logged : List Exchange → Mounted → Prop
  | mounted (s : Session) : Logged [] ⟨{}, s⟩
  | served {log : List Exchange} {m m' : Mounted} {now : Clock Reading} {request : Request} {r : Except Failure Response}
      (before : Logged log m) (ran : m.run (Serving.answer now request) = (r, m')) : Logged (log ++ [⟨request, r⟩]) m'
  | elsewhere {log : List Exchange} {m : Mounted} (before : Logged log m) (s : Session) : Logged log ⟨m.table, s⟩

theorem Logged.next (h : Logged log m) (now : Clock Reading) (request : Request) :
    Logged (log ++ [⟨request, (m.run (Serving.answer now request)).1⟩]) (m.run (Serving.answer now request)).2 := .served h rfl

theorem Logged.sound (h : Logged log m) : m.table.Sound := by
  induction h with
  | mounted => exact NodeTable.sound_new
  | served _ ran ih => exact (answers_of_run ran).sound ih
  | elsewhere _ _ ih => exact ih

theorem Logged.balanced (h : Logged log m) (other : number ≠ rootNumber)
    (few : (account number (notices log)).told < UInt64.size) : Balanced m.table number (account number (notices log)) := by
  induction h with
  | mounted =>
    constructor
    · intro node found
      have new : ({} : NodeTable).node? number = none := by
        rw [NodeTable.node?, List.lookup_cons, beq_eq_false_iff_ne.mpr other]
        rfl
      cases new.symm.trans found
    · exact fun _ => rfl
  | @served log m m' now request r before ran ih =>
    have split : notices (log ++ [⟨request, r⟩]) = notices log ++ Exchange.notices ⟨request, r⟩ := by
      simp [notices]
    rw [split, account, Account.run_append] at few ⊢
    have earlier : (account number (notices log)).told < UInt64.size := by
      have grown := (account number (notices log)).told_run number (Exchange.notices ⟨request, r⟩)
      rw [account] at grown ⊢
      omega
    exact (ih earlier).answers before.sound other (answers_of_run ran) few
  | elsewhere _ _ ih => exact ih few

/-- What holds of the counts of a mounted volume, after the requests of this log. -/
structure CountLaws (log : List Exchange) (m : Mounted) : Prop where
  /-- An entry counts the replies that carried its number, less what was given back of them. -/
  counted : ∀ number ≠ rootNumber, ∀ node, m.table.node? number = some node →
    (account number (notices log)).told = (notices log).count (.told number) ∧
    (account number (notices log)).returned ≤ (account number (notices log)).told ∧
    node.lookups = (account number (notices log)).told - (account number (notices log)).returned
  /-- More than is counted is not taken back, and nothing changes. -/
  ignored : ∀ number ≠ rootNumber, ∀ node count, m.table.node? number = some node → node.lookups < count →
    (m.table.forget number count).1 = false ∧ (m.table.forget number count).2.node? number = some node
  /-- The flag tells that all that is counted was taken back, and then the entry is gone. -/
  flagged : ∀ front number count, ((m.table.forgetAll front).forget number count).1 = true ↔
    number ≠ rootNumber ∧ ∃ node, (m.table.forgetAll front).node? number = some node ∧ node.lookups = count
  /-- A number that is known leaves just when the flag of one of its forgets tells so. -/
  leaves : ∀ {now request r m'}, m.run (Serving.answer now request) = (r, m') → ∀ number, (m.table.node? number).isSome →
    (m'.table.node? number = none ↔ ∃ front count back, request = .forget (front ++ (number, count) :: back) ∧
      ((m.table.forgetAll front).forget number count).1 = true)
  /-- Other requests count nothing. An entry that is known stays as it is, and a new one is not counted. -/
  idle : ∀ {now request r m'}, m.run (Serving.answer now request) = (r, m') → request.counts = false → ∀ number,
    m'.table.node? number = m.table.node? number ∨
      m.table.node? number = none ∧ ∃ node, m'.table.node? number = some node ∧ node.lookups = 0
  /-- A request that is refused leaves the table as it is. -/
  refused : ∀ {now request e m'}, m.run (Serving.answer now request) = (.error e, m') → m'.table = m.table
  /-- A number that the kernel holds is known, if the kernel gives back no more than it was told. -/
  held : ∀ number, (∀ front, front <+: notices log → sent number front ≤ front.count (.told number)) →
    sent number (notices log) < (notices log).count (.told number) → (m.table.path? number).isSome
  /-- The root is never forgotten. -/
  root : m.table.path? rootNumber = some rootPath

/-- As long as the kernel was told of fewer than `2 ^ 64` numbers, no count wraps. -/
theorem Logged.countLaws (h : Logged log m) (few : lookups (notices log) < UInt64.size) : CountLaws log m := by
  have sound := h.sound
  have balanced (number : Nat) (other : number ≠ rootNumber) : Balanced m.table number (account number (notices log)) := by
    refine h.balanced other (Nat.lt_of_le_of_lt ?_ few)
    rw [told_account]
    exact count_told_le number _
  have root : m.table.path? rootNumber = some rootPath := sound.proper.path?_of_number? sound.root
  constructor
  case counted =>
    intro number other node found
    have same := (balanced number other).known node found
    exact ⟨told_account number _, by omega, by omega⟩
  case ignored => exact fun number other node count found fewer => NodeTable.forget_of_lt other found fewer
  case flagged => exact fun front number count => NodeTable.forget_eq_true
  case leaves => exact fun ran number known => (answers_of_run ran).node?_eq_none sound known
  case idle => exact fun ran idle number => (answers_of_run ran).node?_of_not_counts sound idle
  case refused => exact fun ran => (answers_of_run ran).refused_eq
  case held =>
    intro number honest holds
    by_cases other : number = rootNumber
    · rw [other, root]
      rfl
    · cases found : m.table.node? number with
      | none =>
        have even := (balanced number other).unknown found
        rw [Account.returned_of_honest honest, told_account] at even
        omega
      | some node =>
        rw [NodeTable.path?, found]
        rfl
  case root => exact root

/-- The kernel looks up the root by another path, twice. It wants to give back five lookups, and then one. -/
theorem countLaws_looked_up_twice : ∃ log m, Logged log m ∧ lookups (notices log) = 2 ∧
    account 2 (notices log) = ⟨2, 1⟩ ∧ (m.table.node? 2).map Node.lookups = some 1 ∧ CountLaws log m := by
  have mounted : Logged [] ⟨{}, .first⟩ := .mounted .first
  have looked := (mounted.next (.still 0) (.lookup rootNumber "/".toUTF8)).next (.still 0) (.lookup rootNumber "/".toUTF8)
  have logged := (looked.next (.still 0) (.forget [(2, 5)])).next (.still 0) (.forget [(2, 1)])
  exact ⟨_, _, logged, by decide, by decide, by decide, Logged.countLaws logged (by decide)⟩

end Mounted
end RecordFs.Mount
