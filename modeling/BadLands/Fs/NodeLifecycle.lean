import BadLands.Core.Machine
import BadLands.Fs.NpfsDirectory

/-!
# NPFS: the life of a node

A node is referenced by `Open` and `Find` and dereferenced by `Close`; `Remove` takes a
reference of its own, marks the node, clears its entry and drops the reference again. Whoever
closes the last reference of a marked node runs `Destroy(true)`, which frees it: that is
`Remove` itself when nobody else holds the node, and some later `Close` otherwise.

`Nodes` is the memory; `System` adds what the clients hold and what `Remove` has unlinked.
`node_lifecycle` is the result over every sequence of operations.
-/
namespace BadLands.Fs.Npfs.Lifecycle

open BadLands.Core.Machine
open BadLands.Fs.Npfs.Directory (findEntry setEntry view Blocks Represents Map update)

/-- The data of a directory node. -/
structure Table where
  tree : BlockTree
  slots : Nat → Nat → DirectoryEntry

/-- The nodes by address. `directories`: the data of those that are directories; `destroyed`:
how often `Destroy(true)` has run. -/
structure Nodes where
  openReferences : Pointer → Nat
  removed : Pointer → Bool
  directories : Pointer → Option Table
  destroyed : Pointer → Nat

def Table.directory (t : Table) (removed : Pointer → Bool) : Directory := ⟨t.tree, t.slots, removed⟩

namespace Nodes

/-- mirrors kernel/src/fs/IFNode.cpp:21-29 -/
def openNode (s : Nodes) (n : Pointer) : Status × Nodes :=
  if s.removed n then (.unavailable, s)
  else (.success, { s with openReferences := Function.update s.openReferences n (s.openReferences n + 1) })

/-- The entries of a directory go with it; its files are not marked.
mirrors kernel/src/fs/NPFS.cpp:566-577 and kernel/src/fs/NPFS.cpp:774-783 -/
def destroy (s : Nodes) (n : Pointer) (deleted : Bool) : Nodes :=
  if deleted then { s with destroyed := Function.update s.destroyed n (s.destroyed n + 1)
                           directories := Function.update s.directories n none }
  else s

/-- mirrors kernel/src/fs/IFNode.cpp:31-37 -/
def close (s : Nodes) (n : Pointer) : Nodes :=
  let s := { s with openReferences := Function.update s.openReferences n (s.openReferences n - 1) }
  if s.openReferences n = 0 then s.destroy n (s.removed n) else s

/-- mirrors kernel/src/fs/IFNode.cpp:43-45 -/
def markForRemoval (s : Nodes) (n : Pointer) : Nodes :=
  { s with removed := Function.update s.removed n true }

/-- `none`: the walk over the entries does not end.
mirrors kernel/src/fs/NPFS.cpp:296-314 and kernel/src/fs/IFNode.cpp:67-69 -/
def find (s : Nodes) (dir : Pointer) (name : Name) : Option (Response Pointer × Nodes) :=
  match s.directories dir with
  | none => some (.error .unsupported, s)
  | some t => do
    match ← findEntry (t.directory s.removed) name with
    | .error e => return (.error e, s)
    | .ok (block, j) =>
      let node := (t.slots block j).node
      match s.openNode node with
      | (.success, s) => return (.ok node, s)
      | (status, s) => return (.error status, s)

/-- Also the node whose entry is cleared.
mirrors kernel/src/fs/NPFS.cpp:465-501 and kernel/src/fs/IFNode.cpp:79-81 -/
def remove (s : Nodes) (dir : Pointer) (name : Name) : Option (Status × Option Pointer × Nodes) :=
  match s.directories dir with
  | none => some (.unsupported, none, s)
  | some t => do
    match ← findEntry (t.directory s.removed) name with
    | .error e => return (e, none, s)
    | .ok (block, j) =>
      let node := (t.slots block j).node
      match s.openNode node with
      | (.success, s) =>
        let s := s.markForRemoval node
        let t := { t with slots := setEntry t.slots block j .null }
        let s := { s with directories := Function.update s.directories dir (some t) }
        return (.success, some node, s.close node)
      | (.unavailable, s) => return (.success, none, s)
      | (status, s) => return (status, none, s)

end Nodes

/-- `held`: the references that clients have got from `Open` and `Find` and not closed.
`unlinked`: the nodes whose entry `Remove` has cleared. -/
structure System where
  nodes : Nodes
  held : Pointer → Nat
  unlinked : Pointer → Bool

inductive Act where
  | find (dir : Pointer) (name : Name)
  | openNode (n : Pointer)
  | close (n : Pointer)
  | remove (dir : Pointer) (name : Name)

def System.acquired (s : System) (nodes : Nodes) (n : Pointer) : System :=
  { s with nodes := nodes, held := Function.update s.held n (s.held n + 1) }

/-- Operations are made on nodes that are there, and a `Close` by who holds a reference. -/
def step (s : System) : Act → Option System
  | .find dir name =>
    if s.nodes.destroyed dir ≠ 0 then none
    else match s.nodes.find dir name with
      | none => none
      | some (.ok n, nodes) => some (s.acquired nodes n)
      | some (.error _, nodes) => some { s with nodes := nodes }
  | .openNode n =>
    if s.nodes.destroyed n ≠ 0 then none
    else match s.nodes.openNode n with
      | (.success, nodes) => some (s.acquired nodes n)
      | (_, nodes) => some { s with nodes := nodes }
  | .close n =>
    if s.nodes.destroyed n ≠ 0 ∨ s.held n = 0 then none
    else some { s with nodes := s.nodes.close n, held := Function.update s.held n (s.held n - 1) }
  | .remove dir name =>
    if s.nodes.destroyed dir ≠ 0 then none
    else match s.nodes.remove dir name with
      | none => none
      | some (_, none, nodes) => some { s with nodes := nodes }
      | some (_, some n, nodes) =>
        some { s with nodes := nodes, unlinked := Function.update s.unlinked n true }

/-- A tree before any of it is removed: every entry is in order, no node is in two directories. -/
structure Tree (heap : Heap) (s : Nodes) : Prop where
  tables : ∀ dir t, s.directories dir = some t →
    ∃ k m, Blocks heap (t.directory s.removed) k ∧ Represents (view (t.directory s.removed)) s.removed m
  apart : ∀ dir dir' t t' q q', s.directories dir = some t → s.directories dir' = some t' →
    (view (t.directory s.removed) q).name ≠ [] → (view (t'.directory s.removed) q').name ≠ [] →
    (view (t.directory s.removed) q).node = (view (t'.directory s.removed) q').node → dir = dir'

/-- Nothing is removed yet; clients hold the references there are. -/
structure Start (heap : Heap) (s : System) : Prop where
  tree : Tree heap s.nodes
  references : ∀ n, s.nodes.openReferences n = s.held n
  removed : ∀ n, s.nodes.removed n = false
  unlinked : ∀ n, s.unlinked n = false
  destroyed : ∀ n, s.nodes.destroyed n = 0

/-- `Destroy(true)` has run at most once, and it has exactly when the node is unlinked and its
last reference closed. -/
def Destroyed (s : System) (n : Pointer) : Prop :=
  s.nodes.destroyed n ≤ 1 ∧ (s.nodes.destroyed n = 1 ↔ s.unlinked n = true ∧ s.held n = 0)

/-- No sequence of operations leads to a `Find` that returns `n`. -/
def NeverFound (s : System) (n : Pointer) : Prop :=
  ∀ as, AllStates step (fun s => ∀ dir name nodes, s.nodes.find dir name ≠ some (.ok n, nodes)) s as

def Returns (s : System) (dir : Pointer) (name : Name) : Prop :=
  s.nodes.find dir name ≠ none ∧ s.nodes.remove dir name ≠ none

structure Conforms (s : System) : Prop where
  destroyed : ∀ n, Destroyed s n
  marked : ∀ n, s.nodes.removed n = true → NeverFound s n
  returns : ∀ dir name, Returns s dir name

/-! ## What an operation does -/

section
variable {s s' : System} {a : Act} {n : Pointer} {nodes : Nodes}

/-- The nodes after an `Open` that succeeds. -/
def Nodes.opened (s : Nodes) (n : Pointer) : Nodes :=
  { s with openReferences := Function.update s.openReferences n (s.openReferences n + 1) }

/-- The nodes after a `Remove` that clears the slot `block`, `j` of the directory `dir`. -/
def Nodes.unlinked (s : Nodes) (dir : Pointer) (t : Table) (block j : Nat) : Nodes :=
  let node := (t.slots block j).node
  let s := (s.opened node).markForRemoval node
  let t := { t with slots := setEntry t.slots block j .null }
  Nodes.close { s with directories := Function.update s.directories dir (some t) } node

theorem Nodes.openNode_eq (s : Nodes) (n : Pointer) :
    s.openNode n = if s.removed n then (.unavailable, s) else (.success, s.opened n) := rfl

/-- `Find` finds nothing, or opens a node that is not marked. -/
theorem Nodes.find_cases {s : Nodes} {dir : Pointer} {name : Name} {r : Response Pointer × Nodes}
    (h : s.find dir name = some r) :
    (∃ e, r = (.error e, s)) ∨ ∃ n, s.removed n = false ∧ r = (.ok n, s.opened n) := by
  unfold find at h
  cases hd : s.directories dir with
  | none =>
    rw [hd] at h
    cases h
    exact .inl ⟨_, rfl⟩
  | some t =>
    rw [hd] at h
    dsimp only at h
    obtain ⟨found, -, h⟩ := Option.bind_eq_some_iff.mp h
    cases found with
    | error e =>
      cases h
      exact .inl ⟨_, rfl⟩
    | ok slot =>
      dsimp only at h
      rw [openNode_eq] at h
      cases hm : s.removed (t.slots slot.1 slot.2).node with
      | true =>
        rw [hm, if_pos rfl] at h
        cases h
        exact .inl ⟨_, rfl⟩
      | false =>
        rw [hm, if_neg (by decide)] at h
        cases h
        exact .inr ⟨_, hm, rfl⟩

/-- `Remove` does nothing, or clears the slot that was found. -/
theorem Nodes.remove_cases {s : Nodes} {dir : Pointer} {name : Name} {r : Status × Option Pointer × Nodes}
    (h : s.remove dir name = some r) :
    (∃ e, r = (e, none, s)) ∨ ∃ t block j, s.directories dir = some t ∧
      findEntry (t.directory s.removed) name = some (.ok (block, j)) ∧
      s.removed (t.slots block j).node = false ∧
      r = (.success, some (t.slots block j).node, s.unlinked dir t block j) := by
  unfold remove at h
  cases hd : s.directories dir with
  | none =>
    rw [hd] at h
    cases h
    exact .inl ⟨_, rfl⟩
  | some t =>
    rw [hd] at h
    dsimp only at h
    obtain ⟨found, hf, h⟩ := Option.bind_eq_some_iff.mp h
    cases found with
    | error e =>
      cases h
      exact .inl ⟨_, rfl⟩
    | ok slot =>
      dsimp only at h
      rw [openNode_eq] at h
      cases hm : s.removed (t.slots slot.1 slot.2).node with
      | true =>
        rw [hm, if_pos rfl] at h
        cases h
        exact .inl ⟨_, rfl⟩
      | false =>
        rw [hm, if_neg (by decide)] at h
        cases h
        exact .inr ⟨t, slot.1, slot.2, rfl, hf, hm, rfl⟩

/-- An operation leaves everything as it is, or a client gets a reference, or drops one, or an
entry is cleared. -/
theorem step_cases (h : step s a = some s') :
    s' = s ∨
    (∃ n, s.nodes.removed n = false ∧ s' = s.acquired (s.nodes.opened n) n) ∨
    (∃ n, s.held n ≠ 0 ∧ s.nodes.destroyed n = 0 ∧
      s' = { s with nodes := s.nodes.close n, held := Function.update s.held n (s.held n - 1) }) ∨
    (∃ dir t name block j, s.nodes.directories dir = some t ∧
      findEntry (t.directory s.nodes.removed) name = some (.ok (block, j)) ∧
      s.nodes.removed (t.slots block j).node = false ∧
      s' = { s with nodes := s.nodes.unlinked dir t block j,
                    unlinked := Function.update s.unlinked (t.slots block j).node true }) := by
  cases a with
  | find dir name =>
    rw [step] at h
    split at h
    · cases h
    cases hf : s.nodes.find dir name with
    | none =>
      rw [hf] at h
      cases h
    | some r =>
      rw [hf] at h
      rcases Nodes.find_cases hf with ⟨e, rfl⟩ | ⟨n, hm, rfl⟩
      · cases h
        exact .inl rfl
      · cases h
        exact .inr (.inl ⟨n, hm, rfl⟩)
  | openNode n =>
    rw [step] at h
    split at h
    · cases h
    rw [Nodes.openNode_eq] at h
    cases hm : s.nodes.removed n with
    | true =>
      rw [hm, if_pos rfl] at h
      cases h
      exact .inl rfl
    | false =>
      rw [hm, if_neg (by decide)] at h
      cases h
      exact .inr (.inl ⟨n, hm, rfl⟩)
  | close n =>
    rw [step] at h
    split at h
    · cases h
    · rename_i hn
      cases h
      exact .inr (.inr (.inl ⟨n, fun h0 => hn (.inr h0), by omega, rfl⟩))
  | remove dir name =>
    rw [step] at h
    split at h
    · cases h
    cases hf : s.nodes.remove dir name with
    | none =>
      rw [hf] at h
      cases h
    | some r =>
      rw [hf] at h
      rcases Nodes.remove_cases hf with ⟨e, rfl⟩ | ⟨t, block, j, hd, hfound, hm, rfl⟩
      · cases h
        exact .inl rfl
      · cases h
        exact .inr (.inr (.inr ⟨dir, t, name, block, j, hd, hfound, hm, rfl⟩))

/-! ## `Close` and the entries -/

theorem Nodes.close_openReferences (s : Nodes) (n : Pointer) :
    (s.close n).openReferences = Function.update s.openReferences n (s.openReferences n - 1) := by
  unfold close destroy
  dsimp only
  split
  · split <;> rfl
  · rfl

theorem Nodes.close_removed (s : Nodes) (n : Pointer) : (s.close n).removed = s.removed := by
  unfold close destroy
  dsimp only
  split
  · split <;> rfl
  · rfl

/-- How often `Destroy(true)` should have run. -/
def due (unlinked : Bool) (held : Nat) : Nat := if unlinked = true ∧ held = 0 then 1 else 0

theorem due_linked (held : Nat) : due false held = 0 := by
  unfold due
  simp

/-- The last `Close` of a marked node destroys it. -/
theorem Nodes.close_destroyed (s : Nodes) (n x : Pointer) : (s.close n).destroyed x =
    if x = n then s.destroyed n + due (s.removed n) (s.openReferences n - 1) else s.destroyed x := by
  unfold close destroy due
  simp only [Function.update_self]
  by_cases h0 : s.openReferences n - 1 = 0
  · cases hm : s.removed n with
    | true => simp [h0, Function.update_apply]
    | false =>
      by_cases hx : x = n
      · simp [h0, hx]
      · simp [h0, hx]
  · by_cases hx : x = n
    · simp [h0, hx]
    · simp [h0, hx]

/-- `Close` can only take a directory away. -/
theorem Nodes.close_directories {s : Nodes} {n dir : Pointer} {t : Table}
    (h : (s.close n).directories dir = some t) : s.directories dir = some t := by
  unfold close destroy at h
  dsimp only at h
  split at h
  · split at h
    · dsimp only at h
      rw [Function.update_apply] at h
      split at h
      · cases h
      · exact h
    · exact h
  · exact h

variable {heap : Heap}

theorem Tree.close {s : Nodes} (h : Tree heap s) (n : Pointer) : Tree heap (s.close n) := by
  constructor
  · intro dir t hd
    rw [Nodes.close_removed]
    exact h.tables dir t (Nodes.close_directories hd)
  · intro dir dir' t t' q q' hd hd'
    rw [Nodes.close_removed]
    exact h.apart dir dir' t t' q q' (Nodes.close_directories hd) (Nodes.close_directories hd')

/-- Marking a node that is not among the entries. -/
theorem mark_other {v : Nat → DirectoryEntry} {removed : Pointer → Bool} {m : Map}
    (h : Represents v removed m) (hn : ∀ q, (v q).name ≠ [] → (v q).node ≠ n) :
    Represents v (Function.update removed n true) m := by
  refine ⟨h.shape, h.bound, h.once, h.nodes, fun q hq => ?_⟩
  rw [Function.update_of_ne (hn q hq)]
  exact h.live q hq

/-- What `FindEntry` finds is a used slot. -/
theorem Tree.slot {s : Nodes} (h : Tree heap s) {dir : Pointer} {t : Table} {name : Name} {block j : Nat}
    (hd : s.directories dir = some t)
    (hf : findEntry (t.directory s.removed) name = some (.ok (block, j))) :
    ∃ q, (view (t.directory s.removed) q).name ≠ [] ∧ j = q % 128 ∧
      t.tree.getWeakBlock (q / 128) = some block := by
  obtain ⟨k, m, hb, hr⟩ := h.tables dir t hd
  have hname : name ≠ [] := by
    rintro rfl
    cases hf
  rcases hb.findEntry_spec hr hname with ⟨q, block', hq, hblock, hfind⟩ | ⟨-, hfind⟩
  · rw [hfind] at hf
    cases hf
    exact ⟨q, by rw [hq]; exact hname, rfl, hblock⟩
  · rw [hfind] at hf
    cases hf

/-- Clearing the entry of a node and marking it. -/
theorem Tree.unlink {s : Nodes} (h : Tree heap s) {dir : Pointer} {t : Table} {block q : Nat}
    (hd : s.directories dir = some t) (hq : (view (t.directory s.removed) q).name ≠ [])
    (hblock : t.tree.getWeakBlock (q / 128) = some block) (openReferences destroyed : Pointer → Nat) :
    Tree heap ⟨openReferences, Function.update s.removed (t.slots block (q % 128)).node true,
      Function.update s.directories dir (some ⟨t.tree, setEntry t.slots block (q % 128) .null⟩), destroyed⟩ := by
  obtain ⟨k, m, hb, hr⟩ := h.tables dir t hd
  have hnode : (t.slots block (q % 128)).node = (view (t.directory s.removed) q).node := by
    rw [← Directory.view_slot (d := t.directory s.removed) hblock]
    rfl
  have hview : ∀ removed, view (Table.directory ⟨t.tree, setEntry t.slots block (q % 128) .null⟩ removed) =
      update (view (t.directory s.removed)) q .null :=
    fun removed => hb.view_setEntry (q := q) .null removed hblock
  -- a used slot afterwards was used before, by the same node
  have hold : ∀ dir' t' q', Function.update s.directories dir
      (some ⟨t.tree, setEntry t.slots block (q % 128) .null⟩) dir' = some t' →
      ∀ removed, (view (t'.directory removed) q').name ≠ [] →
      ∃ t₀, s.directories dir' = some t₀ ∧ view (t'.directory removed) q' = view (t₀.directory s.removed) q' := by
    intro dir' t' q' hd' removed hused
    rw [Function.update_apply] at hd'
    split at hd'
    · rename_i heq
      cases hd'
      rw [hview] at hused ⊢
      refine ⟨t, by rw [heq]; exact hd, ?_⟩
      unfold update at hused ⊢
      split at hused
      · exact absurd rfl hused
      · rename_i hne
        rw [if_neg hne]
    · exact ⟨t', hd', rfl⟩
  constructor
  · intro dir' t' hd'
    dsimp only at hd' ⊢
    rw [Function.update_apply] at hd'
    split at hd'
    · cases hd'
      refine ⟨k, Function.update m (view (t.directory s.removed) q).name none,
        ⟨hb.level, hb.blocks, hb.allocated, hb.inj⟩, ?_⟩
      rw [hview, hnode]
      have hmark : Function.update s.removed (view (t.directory s.removed) q).node true =
          fun x => if x = (view (t.directory s.removed) q).node then true else s.removed x := by
        funext x
        rw [Function.update_apply]
      rw [hmark]
      exact hr.unbind hq
    · rename_i hne
      obtain ⟨k', m', hb', hr'⟩ := h.tables dir' t' hd'
      refine ⟨k', m', ⟨hb'.level, hb'.blocks, hb'.allocated, hb'.inj⟩, ?_⟩
      apply mark_other hr'
      intro q' hq' heq
      rw [hnode] at heq
      exact hne (h.apart dir' dir t' t q' q hd' hd hq' hq heq)
  · intro d1 d2 t1 t2 q1 q2 h1 h2 hu1 hu2 heq
    obtain ⟨t1', hd1, hv1⟩ := hold d1 t1 q1 h1 _ hu1
    obtain ⟨t2', hd2, hv2⟩ := hold d2 t2 q2 h2 _ hu2
    rw [hv1] at hu1 heq
    rw [hv2] at hu2 heq
    exact h.apart d1 d2 t1' t2' q1 q2 hd1 hd2 hu1 hu2 heq

/-! ## Every sequence of operations -/

structure Inv (heap : Heap) (s : System) : Prop where
  tree : Tree heap s.nodes
  references : ∀ n, s.nodes.openReferences n = s.held n
  marks : ∀ n, s.nodes.removed n = s.unlinked n
  destroyed : ∀ n, s.nodes.destroyed n = due (s.unlinked n) (s.held n)

theorem Start.inv (h : Start heap s) : Inv heap s := by
  refine ⟨h.tree, h.references, fun n => ?_, fun n => ?_⟩
  · rw [h.removed, h.unlinked]
  · rw [h.destroyed, h.unlinked, due_linked]

theorem Inv.acquire (h : Inv heap s) (hm : s.nodes.removed n = false) :
    Inv heap (s.acquired (s.nodes.opened n) n) := by
  refine ⟨⟨h.tree.tables, h.tree.apart⟩, fun x => ?_, h.marks, fun x => ?_⟩
  · dsimp only [System.acquired, Nodes.opened]
    rw [Function.update_apply, Function.update_apply, h.references, h.references]
  · dsimp only [System.acquired, Nodes.opened]
    rw [h.destroyed x, Function.update_apply]
    by_cases hx : x = n
    · subst hx
      rw [h.marks] at hm
      rw [hm, due_linked, due_linked]
    · rw [if_neg hx]

theorem Inv.release (h : Inv heap s) (hdestroyed : s.nodes.destroyed n = 0) :
    Inv heap { s with nodes := s.nodes.close n, held := Function.update s.held n (s.held n - 1) } := by
  refine ⟨h.tree.close n, fun x => ?_, fun x => ?_, fun x => ?_⟩
  · dsimp only
    rw [Nodes.close_openReferences, Function.update_apply, Function.update_apply, h.references, h.references]
  · dsimp only
    rw [Nodes.close_removed]
    exact h.marks x
  · dsimp only
    rw [Nodes.close_destroyed, h.references, h.marks, Function.update_apply]
    split
    · rename_i hx
      rw [hdestroyed, hx, Nat.zero_add]
    · exact h.destroyed x

theorem Inv.unlink (h : Inv heap s) {dir : Pointer} {t : Table} {name : Name} {block j : Nat}
    (hd : s.nodes.directories dir = some t)
    (hf : findEntry (t.directory s.nodes.removed) name = some (.ok (block, j)))
    (hm : s.nodes.removed (t.slots block j).node = false) :
    Inv heap { s with nodes := s.nodes.unlinked dir t block j,
                      unlinked := Function.update s.unlinked (t.slots block j).node true } := by
  obtain ⟨q, hq, rfl, hblock⟩ := h.tree.slot hd hf
  refine ⟨(h.tree.unlink hd hq hblock _ _).close _, fun x => ?_, fun x => ?_, fun x => ?_⟩
  · dsimp only [Nodes.unlinked, Nodes.opened, Nodes.markForRemoval]
    rw [Nodes.close_openReferences]
    dsimp only
    -- the reference of `Remove` itself comes and goes
    rw [Function.update_self, Nat.add_sub_cancel, Function.update_idem, Function.update_eq_self]
    exact h.references x
  · dsimp only [Nodes.unlinked, Nodes.opened, Nodes.markForRemoval]
    rw [Nodes.close_removed]
    dsimp only
    rw [Function.update_apply, Function.update_apply, h.marks]
  · dsimp only [Nodes.unlinked, Nodes.opened, Nodes.markForRemoval]
    rw [Nodes.close_destroyed]
    dsimp only
    rw [Function.update_self, Function.update_self, Nat.add_sub_cancel, h.references, Function.update_apply]
    split
    · rename_i hx
      rw [h.destroyed, ← h.marks, hm, due_linked, Nat.zero_add, hx]
    · exact h.destroyed x

theorem Inv.step (s : System) (a : Act) (s' : System) (h : Inv heap s) (hs : step s a = some s') :
    Inv heap s' := by
  rcases step_cases hs with rfl | ⟨n, hm, rfl⟩ | ⟨n, -, hdestroyed, rfl⟩ |
    ⟨dir, t, name, block, j, hd, hf, hm, rfl⟩
  · exact h
  · exact h.acquire hm
  · exact h.release hdestroyed
  · exact h.unlink hd hf hm

/-- A mark stays. -/
theorem step_removed (s : System) (a : Act) (s' : System) (h : s.nodes.removed n = true)
    (hs : Lifecycle.step s a = some s') : s'.nodes.removed n = true := by
  rcases step_cases hs with rfl | ⟨_, _, rfl⟩ | ⟨_, _, _, rfl⟩ | ⟨dir, t, name, block, j, _, _, _, rfl⟩
  · exact h
  · exact h
  · dsimp only
    rw [Nodes.close_removed]
    exact h
  · dsimp only [Nodes.unlinked, Nodes.opened, Nodes.markForRemoval]
    rw [Nodes.close_removed]
    dsimp only
    rw [Function.update_apply, h]
    split <;> rfl

theorem neverFound_of_removed (h : s.nodes.removed n = true) : NeverFound s n := by
  intro as
  refine AllStates.mono (P := fun s => s.nodes.removed n = true) (fun s hm dir name nodes hf => ?_) as s
    (allStates_of_inv step_removed as s h)
  rcases Nodes.find_cases hf with ⟨e, he⟩ | ⟨x, hx, he⟩
  · cases he
  · cases he
    rw [hm] at hx
    cases hx

theorem Tree.returns (h : Tree heap s.nodes) (dir : Pointer) (name : Name) : Returns s dir name := by
  have hfind : ∀ t, s.nodes.directories dir = some t →
      ∃ r, findEntry (t.directory s.nodes.removed) name = some r := by
    intro t hd
    obtain ⟨k, m, hb, hr⟩ := h.tables dir t hd
    by_cases hname : name = []
    · subst hname
      exact ⟨_, rfl⟩
    · rcases hb.findEntry_spec hr hname with ⟨q, block, -, -, hf⟩ | ⟨-, hf⟩
      · exact ⟨_, hf⟩
      · exact ⟨_, hf⟩
  unfold Returns Nodes.find Nodes.remove
  cases hd : s.nodes.directories dir with
  | none => exact ⟨(fun h => by cases h), (fun h => by cases h)⟩
  | some t =>
    obtain ⟨r, hr⟩ := hfind t hd
    dsimp only
    rw [hr]
    simp only [Option.bind_eq_bind, Option.bind_some]
    cases r with
    | error e => exact ⟨(fun h => by cases h), (fun h => by cases h)⟩
    | ok slot =>
      dsimp only
      rw [Nodes.openNode_eq]
      cases s.nodes.removed (t.slots slot.1 slot.2).node with
      | true => exact ⟨(fun h => by cases h), (fun h => by cases h)⟩
      | false => exact ⟨(fun h => by cases h), (fun h => by cases h)⟩

theorem Inv.conforms (h : Inv heap s) : Conforms s := by
  refine ⟨fun n => ?_, fun n hm => neverFound_of_removed hm, h.tree.returns⟩
  unfold Destroyed
  rw [h.destroyed n]
  unfold due
  split
  · rename_i hlast
    exact ⟨Nat.le_refl 1, fun _ => hlast, fun _ => rfl⟩
  · rename_i hlast
    exact ⟨Nat.zero_le 1, (fun h => by cases h), fun h => absurd h hlast⟩

/-- From any tree, along any sequence of operations. -/
theorem node_lifecycle (heap : Heap) (s : System) (h : Start heap s) (as : List Act) :
    AllStates step Conforms s as :=
  AllStates.mono (fun _ hi => hi.conforms) as s (allStates_of_inv Inv.step as s h.inv)

end

/-- A root at 0 with one file in it. -/
def oneFile (heap : Heap) (name : Name) (node : Pointer) : System where
  nodes :=
    { openReferences := fun _ => 0
      removed := fun _ => false
      directories := fun dir => if dir = 0 then
          (Directory.createEntry heap (.construct fun _ => false) ⟨node, name.length, name⟩).map
            fun r => ⟨r.2.tree, r.2.slots⟩
        else none
      destroyed := fun _ => 0 }
  held := fun _ => 0
  unlinked := fun _ => false

theorem oneFile_start (heap : Heap) {name : Name} (node : Pointer) (hname : name ≠ []) :
    Start heap (oneFile heap name node) := by
  refine ⟨⟨fun dir t hd => ?_, fun dir dir' t t' q q' hd hd' _ _ _ => ?_⟩, fun _ => rfl, fun _ => rfl,
    fun _ => rfl, fun _ => rfl⟩
  · dsimp only [oneFile] at hd ⊢
    split at hd
    · have hempty : Directory.Holds heap (.construct fun _ => false) fun _ => none := by
        refine ⟨0, Directory.blocks_construct heap _, ?_⟩
        rw [show view (.construct fun _ => false) = fun _ => .null from
          funext (Directory.view_construct fun _ => false)]
        exact Directory.represents_empty _
      have hnew : ∀ _ : Name, (none : Option Pointer) ≠ some node := fun _ hx => by cases hx
      rcases hempty.createEntry hname hnew rfl with
        ⟨hm, -⟩ | ⟨-, d, hrun, k, hb, hr⟩
      · exact absurd rfl hm
      · rw [hrun] at hd
        cases hd
        exact ⟨k, _, ⟨hb.level, hb.blocks, hb.allocated, hb.inj⟩, hr.marks fun _ _ => rfl⟩
    · cases hd
  · dsimp only [oneFile] at hd hd'
    split at hd
    · split at hd'
      · simp only [*]
      · cases hd'
    · cases hd

theorem node_lifecycle_oneFile :
    (run step (oneFile BlockTree.pageHeap [97] 5) [.find 0 [97], .remove 0 [97], .find 0 [97], .close 5]).map
      (fun s => s.nodes.destroyed 5) = some 1 ∧
    AllStates step Conforms (oneFile BlockTree.pageHeap [97] 5) [.find 0 [97], .remove 0 [97], .find 0 [97], .close 5] := by
  constructor
  · rfl
  · exact node_lifecycle BlockTree.pageHeap _ (oneFile_start BlockTree.pageHeap 5 (fun h => by cases h)) _

end BadLands.Fs.Npfs.Lifecycle
