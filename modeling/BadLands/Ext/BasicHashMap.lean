import Mathlib.Data.List.Dedup
import Mathlib.Data.List.Perm.Basic

/-!
# BasicHashMap

A table of `capacity` chains of aggregates; an aggregate has `ratio` slots and a presence bit for
each of them, in words of 32 bits that the loops skip when nothing is to be found in them. The
chains are lists, and a pointer to a value is a `Location`.

`contents` lists what is stored, in the order of the table. `insert_contents` says what an
insertion does to it and `atKey_contents` what a lookup finds in it.
-/
namespace BadLands.Ext

/-- The template arguments.
mirrors kernel/include/ext/BasicHashMap.hpp:27 and kernel/include/ext/BasicHashMap.hpp:31 -/
structure Shape where
  capacity : Nat
  ratio : Nat
  capacity_pos : 0 < capacity
  ratio_pos : 0 < ratio

/-- mirrors kernel/include/ext/BasicHashMap.hpp:30-36 -/
structure Aggregate (K V : Type) where
  values : Nat → V
  keys : Nat → K
  presence : Nat → BitVec 32

/-- A pointer to a value: a chain, an aggregate of it and a slot. -/
structure Location where
  entry : Nat
  agg : Nat
  i : Nat
  deriving DecidableEq

/-- mirrors kernel/include/ext/BasicHashMap.hpp:68-69 -/
structure BasicHashMap (K V : Type) where
  entries : Nat → List (Aggregate K V)
  elementsCount : Nat

/-- `for (; i < ratio; ++i) { if (skip) i += 31; else if (hit) return i; }` -/
def scan (ratio : Nat) (skip hit : Nat → Bool) (i : Nat) : Option Nat :=
  if i < ratio then
    if skip i then scan ratio skip hit (i + 32)
    else if hit i then some i
    else scan ratio skip hit (i + 1)
  else none
termination_by ratio - i

namespace Aggregate

variable {K V : Type}

/-- `((presence[i / 32] >> (i % 32)) & 1) != 0` -/
def present (a : Aggregate K V) (i : Nat) : Bool := (a.presence (i / 32) >>> (i % 32)) &&& 1#32 != 0#32

/-- mirrors kernel/include/ext/BasicHashMap.hpp:38-49 -/
def access [DecidableEq K] (sh : Shape) (a : Aggregate K V) (key : K) : Option Nat :=
  scan sh.ratio (fun i => a.presence (i / 32) == 0#32) (fun i => a.present i && decide (a.keys i = key)) 0

/-- mirrors kernel/include/ext/BasicHashMap.hpp:57-60 -/
def put (a : Aggregate K V) (i : Nat) (key : K) (value : V) : Aggregate K V where
  values := Function.update a.values i value
  keys := Function.update a.keys i key
  presence := Function.update a.presence (i / 32) (a.presence (i / 32) ||| 1#32 <<< (i % 32))

/-- mirrors kernel/include/ext/BasicHashMap.hpp:51-65 -/
def insert (sh : Shape) (a : Aggregate K V) (key : K) (value : V) : Option (Nat × Aggregate K V) :=
  (scan sh.ratio (fun i => a.presence (i / 32) == 0xFFFFFFFF#32) (fun i => !a.present i) 0).map fun i =>
    (i, a.put i key value)

/-- `new (mem) Aggregate`, over whatever `mem` holds. -/
def fresh [Zero K] (mem : Nat → V) : Aggregate K V := ⟨mem, fun _ => 0, fun _ => 0#32⟩

end Aggregate

section
variable {K V : Type} [DecidableEq K] [Zero K]

/-- mirrors kernel/include/ext/BasicHashMap.hpp:154-164 -/
def accessChain (sh : Shape) (key : K) : List (Aggregate K V) → Nat → Option (Nat × Nat)
  | [], _ => none
  | a :: rest, n =>
    match a.access sh key with
    | some i => some (n, i)
    | none => accessChain sh key rest (n + 1)

/-- mirrors kernel/include/ext/BasicHashMap.hpp:199-209 -/
def insertChain (sh : Shape) (key : K) (value : V) :
    List (Aggregate K V) → Nat → Option (Nat × Nat × List (Aggregate K V))
  | [], _ => none
  | a :: rest, n =>
    match a.insert sh key value with
    | some (i, a) => some (n, i, a :: rest)
    | none => (insertChain sh key value rest (n + 1)).map fun (n, i, rest) => (n, i, a :: rest)

namespace BasicHashMap

def empty : BasicHashMap K V := ⟨fun _ => [], 0⟩

def setEntry (m : BasicHashMap K V) (hash : Nat) (chain : List (Aggregate K V)) : BasicHashMap K V :=
  { m with entries := Function.update m.entries hash chain }

/-- What a pointer points to. -/
def value? (m : BasicHashMap K V) (l : Location) : Option V := ((m.entries l.entry)[l.agg]?).map (·.values l.i)

/-- `hash` stands for `FNV1A32`.
mirrors kernel/include/ext/BasicHashMap.hpp:149-165 -/
def atKey (sh : Shape) (hash : K → Nat) (m : BasicHashMap K V) (key : K) : Option Location :=
  let h := hash key % sh.capacity
  (accessChain sh key (m.entries h) 0).map fun (n, i) => ⟨h, n, i⟩

/-- `*ptr = value` -/
def assign (m : BasicHashMap K V) (l : Location) (value : V) : BasicHashMap K V :=
  m.setEntry l.entry ((m.entries l.entry).modify l.agg fun a => { a with values := Function.update a.values l.i value })

/-- `mem`: what `Heap::Allocate` returns, should it be called: null, or memory with any contents.
mirrors kernel/include/ext/BasicHashMap.hpp:167-226 -/
def insert (sh : Shape) (hash : K → Nat) (m : BasicHashMap K V) (key : K) (value : V) (mem : Option (Nat → V)) :
    Option Location × BasicHashMap K V :=
  let h := hash key % sh.capacity
  if m.entries h = [] then
    match mem with
    | none => (none, m)
    | some mem =>
      let agg : Aggregate K V := .fresh mem
      let agg := { values := Function.update agg.values 0 value, keys := Function.update agg.keys 0 key,
                   presence := Function.update agg.presence 0 1#32 }
      (some ⟨h, 0, 0⟩, { m.setEntry h [agg] with elementsCount := m.elementsCount + 1 })
  else
    match m.atKey sh hash key with
    | some ptr => (some ptr, m.assign ptr value)
    | none =>
      match insertChain sh key value (m.entries h) 0 with
      | some (n, i, chain) => (some ⟨h, n, i⟩, { m.setEntry h chain with elementsCount := m.elementsCount + 1 })
      | none =>
        match mem with
        | none => (none, m)
        | some mem =>
          let n := (m.entries h).length
          let agg : Aggregate K V := .fresh mem
          -- `prev->next = agg` and the count come before the insertion
          match agg.insert sh key value with
          | some (i, agg) => (some ⟨h, n, i⟩,
              { m.setEntry h (m.entries h ++ [agg]) with elementsCount := m.elementsCount + 1 })
          | none => (none, { m.setEntry h (m.entries h ++ [agg]) with elementsCount := m.elementsCount + 1 })

end BasicHashMap

end

/-! ## The loops over the slots -/

theorem find?_range'_skip (hit : Nat → Bool) (d : Nat) : ∀ (n i : Nat), (∀ k, i ≤ k → k < i + d → hit k = false) →
    (List.range' i n).find? hit = (List.range' (i + d) (n - d)).find? hit := by
  intro n i hnone
  by_cases hd : d ≤ n
  · have hfirst : (List.range' i d).find? hit = none := by
      rw [List.find?_eq_none]
      intro k hk
      rw [List.mem_range'_1] at hk
      simp [hnone k hk.1 hk.2]
    have hsplit : List.range' i n = List.range' i d ++ List.range' (i + d) (n - d) := by
      rw [List.range'_append_1, Nat.add_sub_cancel' hd]
    rw [hsplit, List.find?_append, hfirst, Option.none_or]
  · rw [Nat.sub_eq_zero_of_le (by omega), List.range'_zero, List.find?_nil, List.find?_eq_none]
    intro k hk
    rw [List.mem_range'_1] at hk
    simp [hnone k hk.1 (by omega)]

/-- A loop that skips words with nothing in them, from the start of a word or inside one that it
does not skip, finds the first hit. -/
theorem scan_eq {ratio : Nat} {skip hit : Nat → Bool} (hword : ∀ j k, j / 32 = k / 32 → skip j = skip k)
    (hskip : ∀ j k, skip j = true → k / 32 = j / 32 → hit k = false) :
    ∀ i, i % 32 = 0 ∨ skip i = false → scan ratio skip hit i = (List.range' i (ratio - i)).find? hit := by
  intro i
  fun_induction scan ratio skip hit i with
  | case1 i hi hs ih =>
    intro hstart
    have h0 : i % 32 = 0 := hstart.resolve_right (by rw [hs]; decide)
    rw [ih (.inl (by omega)), find?_range'_skip hit 32 (ratio - i) i, Nat.sub_sub]
    exact fun k h1 h2 => hskip i k hs (by omega)
  | case2 i hi hs hh =>
    intro _
    obtain ⟨n, hn⟩ : ∃ n, ratio - i = n + 1 := ⟨ratio - i - 1, by omega⟩
    rw [hn, List.range'_succ, List.find?_cons_of_pos hh]
  | case3 i hi hs hh ih =>
    intro _
    have hnext : (i + 1) % 32 = 0 ∨ skip (i + 1) = false := by
      by_cases h0 : (i + 1) % 32 = 0
      · exact .inl h0
      · right
        rw [hword (i + 1) i (by omega)]
        exact Bool.eq_false_iff.mpr hs
    obtain ⟨n, hn⟩ : ∃ n, ratio - i = n + 1 := ⟨ratio - i - 1, by omega⟩
    rw [ih hnext, hn, List.range'_succ, List.find?_cons_of_neg hh, Nat.sub_succ, hn]
    rfl
  | case4 i hi =>
    intro _
    rw [Nat.sub_eq_zero_of_le (by omega), List.range'_zero, List.find?_nil]

namespace Aggregate

variable {K V : Type} {a : Aggregate K V}

theorem present_eq (a : Aggregate K V) (i : Nat) : a.present i = (a.presence (i / 32)).getLsbD (i % 32) := by
  unfold present
  rw [BitVec.and_one_eq_setWidth_ofBool_getLsbD, BitVec.getLsbD_ushiftRight, Nat.add_zero]
  cases (a.presence (i / 32)).getLsbD (i % 32) <;> decide

theorem present_of_empty {i j : Nat} (h : (a.presence (j / 32) == 0#32) = true) (hi : i / 32 = j / 32) :
    a.present i = false := by
  rw [present_eq, hi, eq_of_beq h, BitVec.getLsbD_zero]

theorem present_of_full {i j : Nat} (h : (a.presence (j / 32) == 0xFFFFFFFF#32) = true) (hi : i / 32 = j / 32) :
    a.present i = true := by
  have hlt : i % 32 < 32 := Nat.mod_lt _ (by decide)
  have hones : (0xFFFFFFFF#32 : BitVec 32) = BitVec.allOnes 32 := by decide
  rw [present_eq, hi, eq_of_beq h, hones, BitVec.getLsbD_allOnes, decide_eq_true hlt]

theorem access_eq [DecidableEq K] (sh : Shape) (key : K) :
    a.access sh key = (List.range sh.ratio).find? fun i => a.present i && decide (a.keys i = key) := by
  unfold access
  rw [scan_eq (fun j k h => by rw [h]) (fun j k hs hk => ?_) 0 (.inl rfl), List.range_eq_range', Nat.sub_zero]
  rw [present_of_empty hs hk, Bool.false_and]

/-- The slots in use. -/
def used (ratio : Nat) (a : Aggregate K V) : List Nat := (List.range ratio).filter a.present

/-- What is stored in an aggregate. -/
def contents (ratio : Nat) (a : Aggregate K V) : List (K × V) := (a.used ratio).map fun i => (a.keys i, a.values i)

theorem mem_used {ratio i : Nat} : i ∈ a.used ratio ↔ i < ratio ∧ a.present i = true := by
  unfold used
  rw [List.mem_filter, List.mem_range]

theorem nodup_used (ratio : Nat) (a : Aggregate K V) : (a.used ratio).Nodup := List.nodup_range.filter _

theorem present_put (i : Nat) (key : K) (value : V) (j : Nat) :
    (a.put i key value).present j = (decide (j = i) || a.present j) := by
  have hj : j % 32 < 32 := Nat.mod_lt _ (by decide)
  rw [present_eq, present_eq]
  dsimp only [put]
  by_cases hw : j / 32 = i / 32
  · rw [hw, Function.update_self, BitVec.getLsbD_or, BitVec.getLsbD_shiftLeft, BitVec.getLsbD_one]
    by_cases hji : j = i
    · subst hji
      simp [hj]
    · by_cases hlt : j % 32 < i % 32
      · simp [hji, hlt]
      · have : j % 32 - i % 32 ≠ 0 := by omega
        simp [hji, this]
  · have hji : j ≠ i := fun h => hw (by rw [h])
    rw [Function.update_of_ne hw, decide_eq_false hji, Bool.false_or]

/-- A slot that was free. -/
theorem contents_put {ratio i : Nat} (hi : i < ratio) (hfree : a.present i = false) (key : K) (value : V) :
    ((a.put i key value).contents ratio).Perm ((key, value) :: a.contents ratio) := by
  have hused : ((a.put i key value).used ratio).Perm (i :: a.used ratio) := by
    have hnot : i ∉ a.used ratio := by
      rw [mem_used, hfree]
      simp
    refine (List.perm_ext_iff_of_nodup (nodup_used ratio _)
      (List.nodup_cons.mpr ⟨hnot, nodup_used ratio a⟩)).mpr fun j => ?_
    rw [List.mem_cons]
    simp only [mem_used, present_put, Bool.or_eq_true, decide_eq_true_eq]
    constructor
    · rintro ⟨hj, rfl | hp⟩
      · exact .inl rfl
      · exact .inr ⟨hj, hp⟩
    · rintro (rfl | ⟨hj, hp⟩)
      · exact ⟨hi, .inl rfl⟩
      · exact ⟨hj, .inr hp⟩
  have hkept : (a.used ratio).map (fun j => ((a.put i key value).keys j, (a.put i key value).values j)) =
      a.contents ratio := by
    refine List.map_congr_left fun j hj => ?_
    have hji : j ≠ i := by
      rintro rfl
      rw [mem_used, hfree] at hj
      cases hj.2
    simp only [put, Function.update_of_ne hji]
  have hnew : ((a.put i key value).keys i, (a.put i key value).values i) = (key, value) := by
    simp only [put, Function.update_self]
  have hmap := hused.map fun j => ((a.put i key value).keys j, (a.put i key value).values j)
  rwa [List.map_cons, hnew, hkept] at hmap

/-- A full aggregate refuses; another takes the key in a free slot. -/
theorem insert_cases (sh : Shape) (a : Aggregate K V) (key : K) (value : V) :
    a.insert sh key value = none ∧ (∀ i < sh.ratio, a.present i = true) ∨
      ∃ i < sh.ratio, a.present i = false ∧ a.insert sh key value = some (i, a.put i key value) := by
  have hscan : scan sh.ratio (fun i => a.presence (i / 32) == 0xFFFFFFFF#32) (fun i => !a.present i) 0 =
      (List.range sh.ratio).find? fun i => !a.present i := by
    rw [scan_eq (fun j k h => by rw [h]) (fun j k hs hk => ?_) 0 (.inl rfl), List.range_eq_range', Nat.sub_zero]
    rw [present_of_full hs hk, Bool.not_true]
  unfold insert
  rw [hscan]
  cases hf : (List.range sh.ratio).find? fun i => !a.present i with
  | none =>
    rw [List.find?_eq_none] at hf
    exact .inl ⟨rfl, fun i hi => by simpa using hf i (List.mem_range.mpr hi)⟩
  | some i =>
    have hi := List.mem_range.mp (List.mem_of_find?_eq_some hf)
    have hfree : a.present i = false := by simpa using List.find?_some hf
    exact .inr ⟨i, hi, hfree, rfl⟩

theorem mem_contents {ratio : Nat} {x : K × V} :
    x ∈ a.contents ratio ↔ ∃ i < ratio, a.present i = true ∧ (a.keys i, a.values i) = x := by
  unfold contents
  rw [List.mem_map]
  simp only [mem_used, and_assoc]

theorem contents_fresh [Zero K] (ratio : Nat) (mem : Nat → V) : (fresh mem : Aggregate K V).contents ratio = [] := by
  rw [List.eq_nil_iff_forall_not_mem]
  intro x hx
  obtain ⟨i, -, hp, -⟩ := mem_contents.mp hx
  rw [present_eq] at hp
  simp [fresh] at hp

/-- `*ptr = value`. -/
theorem contents_assign {ratio i : Nat} (hi : i ∈ a.used ratio) (value : V) :
    ∃ xs ys, a.contents ratio = xs ++ (a.keys i, a.values i) :: ys ∧
      ({ a with values := Function.update a.values i value } : Aggregate K V).contents ratio =
        xs ++ (a.keys i, value) :: ys := by
  obtain ⟨us, ws, hused⟩ := List.append_of_mem hi
  have hnodup := nodup_used ratio a
  rw [hused, List.nodup_append] at hnodup
  have hother : ∀ j ∈ us ++ ws, j ≠ i := by
    rintro j hj rfl
    rcases List.mem_append.mp hj with hj | hj
    · exact hnodup.2.2 j hj j List.mem_cons_self rfl
    · exact (List.nodup_cons.mp hnodup.2.1).1 hj
  have hkept : ∀ l : List Nat, (∀ j ∈ l, j ≠ i) →
      l.map (fun j => (a.keys j, Function.update a.values i value j)) = l.map fun j => (a.keys j, a.values j) :=
    fun l hl => List.map_congr_left fun j hj => by rw [Function.update_of_ne (hl j hj)]
  refine ⟨us.map fun j => (a.keys j, a.values j), ws.map fun j => (a.keys j, a.values j), ?_, ?_⟩
  · unfold contents
    rw [hused, List.map_append, List.map_cons]
  · have hsame : ({ a with values := Function.update a.values i value } : Aggregate K V).used ratio = a.used ratio := rfl
    unfold contents
    rw [hsame, hused, List.map_append, List.map_cons]
    dsimp only
    rw [Function.update_self, hkept us fun j hj => hother j (List.mem_append_left _ hj),
      hkept ws fun j hj => hother j (List.mem_append_right _ hj)]

end Aggregate

/-! ## Chains -/

section
variable {K V : Type}

def chainContents (ratio : Nat) (chain : List (Aggregate K V)) : List (K × V) := chain.flatMap (·.contents ratio)

/-- A key is found in its slot, or it is not there. -/
theorem accessChain_cases [DecidableEq K] (sh : Shape) (key : K) (chain : List (Aggregate K V)) (n : Nat) :
    accessChain sh key chain n = none ∧ (∀ x ∈ chainContents sh.ratio chain, x.1 ≠ key) ∨
      ∃ xs a ys i, chain = xs ++ a :: ys ∧ accessChain sh key chain n = some (n + xs.length, i) ∧
        i ∈ a.used sh.ratio ∧ a.keys i = key := by
  induction chain generalizing n with
  | nil => exact .inl ⟨rfl, fun x hx => by cases hx⟩
  | cons a rest ih =>
    rw [accessChain, Aggregate.access_eq]
    cases hf : (List.range sh.ratio).find? fun i => a.present i && decide (a.keys i = key) with
    | some i =>
      have hi := List.mem_range.mp (List.mem_of_find?_eq_some hf)
      have hhit : a.present i = true ∧ a.keys i = key := by simpa using List.find?_some hf
      exact .inr ⟨[], a, rest, i, rfl, rfl, Aggregate.mem_used.mpr ⟨hi, hhit.1⟩, hhit.2⟩
    | none =>
      rw [List.find?_eq_none] at hf
      obtain ⟨hnone, hrest⟩ | ⟨xs, b, ys, i, rfl, hsome, hi, hkey⟩ := ih (n + 1)
      · refine .inl ⟨hnone, fun x hx => ?_⟩
        rcases List.mem_append.mp hx with hx | hx
        · obtain ⟨i, hi, hp, rfl⟩ := Aggregate.mem_contents.mp hx
          have hmiss := hf i (List.mem_range.mpr hi)
          simpa [hp] using hmiss
        · exact hrest x hx
      · refine .inr ⟨a :: xs, b, ys, i, rfl, ?_, hi, hkey⟩
        rw [hsome, List.length_cons, Nat.add_assoc, Nat.add_comm 1]

theorem insertChain_cases (sh : Shape) (key : K) (value : V) (chain : List (Aggregate K V)) (n : Nat) :
    insertChain sh key value chain n = none ∨
      ∃ xs a ys i, chain = xs ++ a :: ys ∧ i < sh.ratio ∧ a.present i = false ∧
        insertChain sh key value chain n = some (n + xs.length, i, xs ++ a.put i key value :: ys) := by
  induction chain generalizing n with
  | nil => exact .inl rfl
  | cons a rest ih =>
    rw [insertChain]
    obtain ⟨hnone, -⟩ | ⟨i, hi, hfree, hsome⟩ := a.insert_cases sh key value
    · rw [hnone]
      obtain hnone' | ⟨xs, b, ys, i, rfl, hi, hfree, hsome⟩ := ih (n + 1)
      · left
        simp only [hnone', Option.map_none]
      · refine .inr ⟨a :: xs, b, ys, i, rfl, hi, hfree, ?_⟩
        simp only [hsome, Option.map_some, List.length_cons, List.cons_append, Nat.add_assoc, Nat.add_comm 1]
    · exact .inr ⟨[], a, rest, i, rfl, hi, hfree, by rw [hsome]; rfl⟩

theorem chainContents_put {ratio i : Nat} (xs ys : List (Aggregate K V)) {a : Aggregate K V} (hi : i < ratio)
    (hfree : a.present i = false) (key : K) (value : V) :
    (chainContents ratio (xs ++ a.put i key value :: ys)).Perm
      ((key, value) :: chainContents ratio (xs ++ a :: ys)) := by
  simp only [chainContents, List.flatMap_append, List.flatMap_cons]
  have hput := (Aggregate.contents_put hi hfree key value).append_right (ys.flatMap (·.contents ratio))
  exact (hput.append_left _).trans List.perm_middle

theorem chainContents_assign {ratio i : Nat} (xs ys : List (Aggregate K V)) {a : Aggregate K V}
    (hi : i ∈ a.used ratio) (value : V) :
    ∃ us ws, chainContents ratio (xs ++ a :: ys) = us ++ (a.keys i, a.values i) :: ws ∧
      chainContents ratio (xs ++ { a with values := Function.update a.values i value } :: ys) =
        us ++ (a.keys i, value) :: ws := by
  obtain ⟨us, ws, hbefore, hafter⟩ := a.contents_assign hi value
  refine ⟨chainContents ratio xs ++ us, ws ++ chainContents ratio ys, ?_, ?_⟩
  · simp only [chainContents, List.flatMap_append, List.flatMap_cons, hbefore, List.append_assoc, List.cons_append]
  · simp only [chainContents, List.flatMap_append, List.flatMap_cons, hafter, List.append_assoc, List.cons_append]

end

/-! ## The table -/

namespace BasicHashMap

variable {K V : Type}

/-- What is stored, in the order of the table. -/
def contents (sh : Shape) (m : BasicHashMap K V) : List (K × V) :=
  (List.range sh.capacity).flatMap fun e => chainContents sh.ratio (m.entries e)

/-- Every key is in its chain and nowhere twice. -/
structure Inv (sh : Shape) (hash : K → Nat) (m : BasicHashMap K V) : Prop where
  hashed : ∀ e < sh.capacity, ∀ x ∈ chainContents sh.ratio (m.entries e), hash x.1 % sh.capacity = e
  nodup : ((m.contents sh).map Prod.fst).Nodup
  count : m.elementsCount = (m.contents sh).length

variable {sh : Shape} {hash : K → Nat} {m : BasicHashMap K V}

theorem contents_empty (sh : Shape) : (empty : BasicHashMap K V).contents sh = [] :=
  List.flatMap_eq_nil_iff.mpr fun _ _ => rfl

theorem inv_empty (sh : Shape) (hash : K → Nat) : Inv sh hash (empty : BasicHashMap K V) where
  hashed e _ x hx := by cases hx
  nodup := by rw [contents_empty]; exact List.nodup_nil
  count := by rw [contents_empty]; rfl

theorem mem_contents {x : K × V} :
    x ∈ m.contents sh ↔ ∃ e < sh.capacity, x ∈ chainContents sh.ratio (m.entries e) := by
  unfold contents
  rw [List.mem_flatMap]
  simp only [List.mem_range]

/-- The table around one chain. -/
theorem contents_split {h : Nat} (hh : h < sh.capacity) (m : BasicHashMap K V) :
    ∃ us ws, ∀ chain, (m.setEntry h chain).contents sh = us ++ (chainContents sh.ratio chain ++ ws) := by
  obtain ⟨xs, ys, hrange⟩ := List.append_of_mem (List.mem_range.mpr hh)
  have hnodup : (List.range sh.capacity).Nodup := List.nodup_range
  rw [hrange, List.nodup_append] at hnodup
  have hkept : ∀ chain (l : List Nat), h ∉ l →
      l.flatMap (fun e => chainContents sh.ratio ((m.setEntry h chain).entries e)) =
        l.flatMap fun e => chainContents sh.ratio (m.entries e) := by
    intro chain l hl
    refine List.flatMap_congr fun e he => ?_
    have hne : e ≠ h := fun heq => hl (heq ▸ he)
    simp only [setEntry, Function.update_of_ne hne]
  refine ⟨xs.flatMap fun e => chainContents sh.ratio (m.entries e), ys.flatMap fun e => chainContents sh.ratio (m.entries e),
    fun chain => ?_⟩
  unfold contents
  rw [hrange, List.flatMap_append, List.flatMap_cons,
    hkept chain xs fun hx => hnodup.2.2 h hx h List.mem_cons_self rfl,
    hkept chain ys (List.nodup_cons.mp hnodup.2.1).1]
  simp only [setEntry, Function.update_self]

theorem setEntry_self (m : BasicHashMap K V) (h : Nat) : m.setEntry h (m.entries h) = m := by
  unfold setEntry
  rw [Function.update_eq_self]

/-- A new pair in its chain. -/
theorem Inv.add {h : Nat} {chain : List (Aggregate K V)} {key : K} {value : V} (hi : Inv sh hash m)
    (hh : hash key % sh.capacity = h) (hnew : ∀ x ∈ m.contents sh, x.1 ≠ key)
    (hperm : (chainContents sh.ratio chain).Perm ((key, value) :: chainContents sh.ratio (m.entries h))) :
    Inv sh hash { m.setEntry h chain with elementsCount := m.elementsCount + 1 } ∧
      (({ m.setEntry h chain with elementsCount := m.elementsCount + 1 } : BasicHashMap K V).contents sh).Perm
        ((key, value) :: m.contents sh) := by
  have hlt : h < sh.capacity := hh ▸ Nat.mod_lt _ sh.capacity_pos
  obtain ⟨us, ws, hsplit⟩ := contents_split hlt m
  have hbefore : m.contents sh = us ++ (chainContents sh.ratio (m.entries h) ++ ws) := by
    rw [← hsplit, setEntry_self]
  have hcontents : ((m.setEntry h chain).contents sh).Perm ((key, value) :: m.contents sh) := by
    rw [hsplit, hbefore]
    exact ((hperm.append_right ws).append_left us).trans List.perm_middle
  refine ⟨⟨fun e he x hx => ?_, ?_, ?_⟩, hcontents⟩
  · by_cases heq : e = h
    · subst heq
      have hx' : x ∈ chainContents sh.ratio chain := by simpa [setEntry] using hx
      rcases List.mem_cons.mp (hperm.mem_iff.mp hx') with rfl | hx'
      · exact hh
      · exact hi.hashed e he x hx'
    · have hx' : x ∈ chainContents sh.ratio (m.entries e) := by simpa [setEntry, heq] using hx
      exact hi.hashed e he x hx'
  · have hkeys := (hcontents.map Prod.fst).nodup_iff
    refine hkeys.mpr (List.nodup_cons.mpr ⟨fun hm => ?_, hi.nodup⟩)
    obtain ⟨x, hx, hxk⟩ := List.mem_map.mp hm
    exact hnew x hx hxk
  · have hlength := hcontents.length_eq
    rw [List.length_cons, ← hi.count] at hlength
    exact hlength.symm

theorem modify_middle {α : Type} (f : α → α) (xs : List α) (a : α) (ys : List α) :
    (xs ++ a :: ys).modify xs.length f = xs ++ f a :: ys := by
  induction xs with
  | nil => rfl
  | cons x xs ih => simp [ih]

/-- A pointer to the value of a key. -/
structure Holds (sh : Shape) (hash : K → Nat) (m : BasicHashMap K V) (key : K) (l : Location) (xs : List (Aggregate K V))
    (a : Aggregate K V) (ys : List (Aggregate K V)) : Prop where
  entry : l.entry = hash key % sh.capacity
  chain : m.entries l.entry = xs ++ a :: ys
  agg : l.agg = xs.length
  used : l.i ∈ a.used sh.ratio
  key : a.keys l.i = key

theorem Holds.value? {key : K} {l : Location} {xs ys : List (Aggregate K V)} {a : Aggregate K V}
    (h : Holds sh hash m key l xs a ys) : m.value? l = some (a.values l.i) := by
  unfold BasicHashMap.value?
  rw [h.chain, h.agg, List.getElem?_append_right (Nat.le_refl _), Nat.sub_self]
  rfl

/-- `*ptr = value` keeps the key. -/
theorem Inv.assign {key : K} {l : Location} {xs ys : List (Aggregate K V)} {a : Aggregate K V} (hi : Inv sh hash m)
    (h : Holds sh hash m key l xs a ys) (value : V) :
    Inv sh hash (m.assign l value) ∧ (m.assign l value).value? l = some value ∧
      ∃ rest, (m.contents sh).Perm ((key, a.values l.i) :: rest) ∧
        ((m.assign l value).contents sh).Perm ((key, value) :: rest) := by
  have hassign : m.assign l value =
      m.setEntry l.entry (xs ++ { a with values := Function.update a.values l.i value } :: ys) := by
    unfold BasicHashMap.assign
    rw [h.chain, h.agg, modify_middle]
  have hlt : l.entry < sh.capacity := h.entry ▸ Nat.mod_lt _ sh.capacity_pos
  obtain ⟨us, ws, hsplit⟩ := contents_split hlt m
  obtain ⟨us', ws', hbefore, hafter⟩ := chainContents_assign xs ys h.used value
  rw [h.key] at hbefore hafter
  have hold : m.contents sh = us ++ (us' ++ (key, a.values l.i) :: ws' ++ ws) := by
    rw [← hbefore, ← h.chain, ← hsplit, setEntry_self]
  have hnew : (m.assign l value).contents sh = us ++ (us' ++ (key, value) :: ws' ++ ws) := by
    rw [hassign, hsplit, hafter]
  have hout : ∀ x : K × V, (us ++ (us' ++ x :: ws' ++ ws)).Perm (x :: (us ++ us' ++ (ws' ++ ws))) := by
    intro x
    have hmiddle : (us ++ us' ++ x :: (ws' ++ ws)).Perm (x :: (us ++ us' ++ (ws' ++ ws))) := List.perm_middle
    rwa [List.append_assoc us, ← List.cons_append, ← List.append_assoc us'] at hmiddle
  refine ⟨⟨fun e he x hx => ?_, ?_, ?_⟩, ?_, us ++ us' ++ (ws' ++ ws), ?_, ?_⟩
  · rw [hassign] at hx
    by_cases heq : e = l.entry
    · subst heq
      simp only [setEntry, Function.update_self, hafter] at hx
      have hchain := hi.hashed l.entry he
      rw [h.chain, hbefore] at hchain
      simp only [List.mem_append, List.mem_cons] at hx hchain
      rcases hx with hx | rfl | hx
      · exact hchain x (.inl hx)
      · exact h.entry.symm
      · exact hchain x (.inr (.inr hx))
    · simp only [setEntry, Function.update_of_ne heq] at hx
      exact hi.hashed e he x hx
  · have hkeys := hi.nodup
    rw [hold] at hkeys
    rw [hnew]
    simpa using hkeys
  · rw [hnew]
    have hcount := hi.count
    rw [hold] at hcount
    simpa [BasicHashMap.assign, setEntry] using hcount
  · unfold BasicHashMap.value?
    rw [hassign, h.agg]
    simp [setEntry]
  · rw [hold]
    exact hout _
  · rw [hnew]
    exact hout _

theorem Holds.mem {key : K} {l : Location} {xs ys : List (Aggregate K V)} {a : Aggregate K V}
    (h : Holds sh hash m key l xs a ys) : (key, a.values l.i) ∈ m.contents sh := by
  refine mem_contents.mpr ⟨l.entry, h.entry ▸ Nat.mod_lt _ sh.capacity_pos, ?_⟩
  rw [h.chain]
  refine List.mem_flatMap.mpr ⟨a, List.mem_append_right _ List.mem_cons_self, ?_⟩
  obtain ⟨hlt, hp⟩ := Aggregate.mem_used.mp h.used
  exact Aggregate.mem_contents.mpr ⟨l.i, hlt, hp, by rw [h.key]⟩

/-- A free slot, in the chain or in an aggregate behind it. -/
theorem Inv.place {h i : Nat} {xs ys : List (Aggregate K V)} {a : Aggregate K V} {key : K} (hi : Inv sh hash m)
    (hh : hash key % sh.capacity = h) (hnew : ∀ x ∈ m.contents sh, x.1 ≠ key)
    (hchain : chainContents sh.ratio (xs ++ a :: ys) = chainContents sh.ratio (m.entries h)) (hlt : i < sh.ratio)
    (hfree : a.present i = false) (value : V) {m' : BasicHashMap K V}
    (hm' : m' = { m.setEntry h (xs ++ a.put i key value :: ys) with elementsCount := m.elementsCount + 1 }) :
    m'.value? ⟨h, xs.length, i⟩ = some value ∧ Inv sh hash m' ∧ (m'.contents sh).Perm ((key, value) :: m.contents sh) := by
  have hperm := chainContents_put xs ys hlt hfree key value
  rw [hchain] at hperm
  subst hm'
  refine ⟨?_, hi.add hh hnew hperm⟩
  unfold BasicHashMap.value?
  simp [setEntry, Aggregate.put]

theorem present_fresh [Zero K] (mem : Nat → V) (i : Nat) : (Aggregate.fresh mem : Aggregate K V).present i = false := by
  rw [Aggregate.present_eq]
  exact BitVec.getLsbD_zero

section
variable [DecidableEq K]

theorem Inv.atKey_cases (hi : Inv sh hash m) (key : K) :
    m.atKey sh hash key = none ∧ (∀ x ∈ m.contents sh, x.1 ≠ key) ∨
      ∃ l xs a ys, m.atKey sh hash key = some l ∧ Holds sh hash m key l xs a ys := by
  unfold BasicHashMap.atKey
  obtain ⟨hnone, hchain⟩ | ⟨xs, a, ys, i, hchain, hsome, hused, hkey⟩ :=
    accessChain_cases sh key (m.entries (hash key % sh.capacity)) 0
  · refine .inl ⟨by simp only [hnone, Option.map_none], fun x hx hxk => ?_⟩
    obtain ⟨e, he, hx⟩ := mem_contents.mp hx
    have hhash := hi.hashed e he x hx
    rw [hxk] at hhash
    rw [← hhash] at hx
    exact hchain x hx hxk
  · refine .inr ⟨⟨hash key % sh.capacity, xs.length, i⟩, xs, a, ys, ?_, rfl, hchain, rfl, hused, hkey⟩
    simp only [hsome, Option.map_some, Nat.zero_add]

/-- A lookup finds what is stored. -/
theorem Inv.atKey_contents (hi : Inv sh hash m) (key : K) (value : V) :
    (m.atKey sh hash key).bind m.value? = some value ↔ (key, value) ∈ m.contents sh := by
  obtain ⟨hnone, hnot⟩ | ⟨l, xs, a, ys, hsome, h⟩ := hi.atKey_cases key
  · rw [hnone]
    exact ⟨(fun he => by cases he), fun hm => absurd rfl (hnot _ hm)⟩
  · rw [hsome, Option.bind_some, h.value?, Option.some.injEq]
    constructor
    · rintro rfl
      exact h.mem
    · intro hm
      exact congrArg Prod.snd (List.inj_on_of_nodup_map hi.nodup h.mem hm rfl)

/-- What an insertion does: nothing, when it gets no memory; else the pair is stored, in the place
of the one with the same key if there is one. -/
theorem Inv.insert [Zero K] (hi : Inv sh hash m) (key : K) (value : V) (mem : Option (Nat → V)) :
    m.insert sh hash key value mem = (none, m) ∧ mem = none ∨
      ∃ l m' rest, m.insert sh hash key value mem = (some l, m') ∧ m'.value? l = some value ∧ Inv sh hash m' ∧
        (m'.contents sh).Perm ((key, value) :: rest) ∧
        ((m.contents sh).Perm rest ∨ ∃ old, (m.contents sh).Perm ((key, old) :: rest)) := by
  unfold BasicHashMap.insert
  by_cases hempty : m.entries (hash key % sh.capacity) = []
  · -- a first aggregate
    simp only [hempty, if_true]
    cases mem with
    | none => exact .inl ⟨rfl, rfl⟩
    | some mem =>
      have hnew : ∀ x ∈ m.contents sh, x.1 ≠ key := by
        intro x hx hxk
        obtain ⟨e, he, hx⟩ := mem_contents.mp hx
        rw [← hi.hashed e he x hx, hxk, hempty] at hx
        cases hx
      have hagg : { values := Function.update (Aggregate.fresh mem : Aggregate K V).values 0 value,
                    keys := Function.update (Aggregate.fresh mem : Aggregate K V).keys 0 key,
                    presence := Function.update (Aggregate.fresh mem : Aggregate K V).presence 0 1#32 } =
          (Aggregate.fresh mem).put 0 key value := by
        simp [Aggregate.put, Aggregate.fresh]
      have hchain : chainContents sh.ratio ([] ++ (Aggregate.fresh mem : Aggregate K V) :: []) =
          chainContents sh.ratio (m.entries (hash key % sh.capacity)) := by
        rw [hempty]
        simp [chainContents, Aggregate.contents_fresh]
      obtain ⟨hvalue, hinv, hperm⟩ := hi.place rfl hnew hchain sh.ratio_pos (present_fresh mem 0) value rfl
      rw [← hagg] at hvalue hinv hperm
      exact .inr ⟨_, _, m.contents sh, rfl, hvalue, hinv, hperm, .inl (List.Perm.refl _)⟩
  · simp only [hempty, if_false]
    obtain ⟨hnone, hnew⟩ | ⟨l, xs, a, ys, hsome, hholds⟩ := hi.atKey_cases key
    · rw [hnone]
      obtain hfull | ⟨xs, a, ys, i, hchain, hlt, hfree, hput⟩ :=
        insertChain_cases sh key value (m.entries (hash key % sh.capacity)) 0
      · -- one more aggregate
        rw [hfull]
        cases mem with
        | none => exact .inl ⟨rfl, rfl⟩
        | some mem =>
          obtain ⟨-, hall⟩ | ⟨i, hlt, hfree, hput⟩ := (Aggregate.fresh mem : Aggregate K V).insert_cases sh key value
          · have h0 := hall 0 sh.ratio_pos
            rw [present_fresh] at h0
            cases h0
          · have hchain : chainContents sh.ratio
                (m.entries (hash key % sh.capacity) ++ (Aggregate.fresh mem : Aggregate K V) :: []) =
                chainContents sh.ratio (m.entries (hash key % sh.capacity)) := by
              simp [chainContents, Aggregate.contents_fresh]
            obtain ⟨hvalue, hinv, hperm⟩ := hi.place rfl hnew hchain hlt hfree value rfl
            simp only [hput]
            exact .inr ⟨_, _, m.contents sh, rfl, hvalue, hinv, hperm, .inl (List.Perm.refl _)⟩
      · obtain ⟨hvalue, hinv, hperm⟩ := hi.place rfl hnew (by rw [hchain]) hlt hfree value rfl
        rw [hput, Nat.zero_add]
        exact .inr ⟨_, _, m.contents sh, rfl, hvalue, hinv, hperm, .inl (List.Perm.refl _)⟩
    · rw [hsome]
      obtain ⟨hinv, hvalue, rest, hold, hperm⟩ := hi.assign hholds value
      exact .inr ⟨l, _, rest, rfl, hvalue, hinv, hperm, .inr ⟨_, hold⟩⟩

end

end BasicHashMap

end BadLands.Ext
