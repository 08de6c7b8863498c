import BadLands.Ext.BasicHashMap

/-!
# BasicHashMap: iteration, and the map as a whole

`walk` is the loop `for (it = begin(); it != end(); ++it)`. It comes to each slot in use once
(`walk_locations`), since an iterator resumes inside a word that is not empty. `hashMap_is_map` is
the result over every sequence of insertions.
-/
namespace BadLands.Ext

/-- `agg` is the place of the aggregate in the chain of `entry`, `none` for null.
mirrors kernel/include/ext/BasicHashMap.hpp:72-94 -/
structure Iterator where
  error : Bool
  ref : Nat
  entry : Nat
  agg : Option Nat
  i : Nat

section
variable {K V : Type}

/-- mirrors kernel/include/ext/BasicHashMap.hpp:102-113 -/
def scanChain (sh : Shape) : List (Aggregate K V) → Nat → Nat → Option (Nat × Nat)
  | [], _, _ => none
  | a :: rest, n, i =>
    match scan sh.ratio (fun i => a.presence (i / 32) == 0#32) a.present i with
    | some j => some (n, j)
    | none => scanChain sh rest (n + 1) 0

namespace BasicHashMap

/-- The chains from `entry` on.
mirrors kernel/include/ext/BasicHashMap.hpp:101-117 and kernel/include/ext/BasicHashMap.hpp:241-258 -/
def scanEntries (sh : Shape) (m : BasicHashMap K V) (entry : Nat) : Option Location :=
  if entry < sh.capacity then
    match scanChain sh (m.entries entry) 0 0 with
    | some (n, i) => some ⟨entry, n, i⟩
    | none => scanEntries sh m (entry + 1)
  else none
termination_by sh.capacity - entry

/-- `while (entry < capacity && entries[entry] == nullptr) { ++entry; }` -/
def firstEntry (sh : Shape) (m : BasicHashMap K V) (entry : Nat) : Nat :=
  if entry < sh.capacity ∧ m.entries entry = [] then firstEntry sh m (entry + 1) else entry
termination_by sh.capacity - entry

/-- The other fields are not set.
mirrors kernel/include/ext/BasicHashMap.hpp:263-265 -/
def finish (m : BasicHashMap K V) : Iterator := ⟨false, m.elementsCount, 0, none, 0⟩

/-- mirrors kernel/include/ext/BasicHashMap.hpp:228-261 -/
def start (sh : Shape) (m : BasicHashMap K V) : Iterator :=
  if m.elementsCount = 0 then m.finish
  else
    let entry := m.firstEntry sh 0
    if entry > sh.capacity then m.finish
    else match m.scanEntries sh entry with
      | some l => ⟨false, 0, l.entry, some l.agg, l.i⟩
      | none => m.finish

/-- mirrors kernel/include/ext/BasicHashMap.hpp:96-123 -/
def next (sh : Shape) (m : BasicHashMap K V) (it : Iterator) : Iterator :=
  if it.error then it
  else if it.entry < sh.capacity then
    let rest := match it.agg with
      | some n => (m.entries it.entry).drop n
      | none => []
    match scanChain sh rest (it.agg.getD 0) (it.i + 1) with
    | some (n, j) => ⟨false, it.ref + 1, it.entry, some n, j⟩
    | none =>
      match m.scanEntries sh (it.entry + 1) with
      | some l => ⟨false, it.ref + 1, l.entry, some l.agg, l.i⟩
      | none => { it with error := true }
  else { it with error := true }

end BasicHashMap

/-- Both iterators are of the same map.
mirrors kernel/include/ext/BasicHashMap.hpp:125-131 -/
def Iterator.equals (it other : Iterator) : Bool := it.error || other.error || it.ref == other.ref

/-- What `*it` points to.
mirrors kernel/include/ext/BasicHashMap.hpp:137-143 -/
def Iterator.deref (it : Iterator) : Option Location :=
  if it.error then none else it.agg.map fun n => ⟨it.entry, n, it.i⟩

/-- `for (; it != end(); ++it)`: where `*it` points to in each turn. `none`: more turns. -/
def walk (sh : Shape) (m : BasicHashMap K V) : Nat → Iterator → Option (List (Option Location))
  | 0, _ => none
  | turns + 1, it =>
    if it.equals m.finish then some []
    else (walk sh m turns (m.next sh it)).map (it.deref :: ·)

/-! ## The slots in use, from a place on -/

def Aggregate.usedFrom (ratio : Nat) (a : Aggregate K V) (i : Nat) : List Nat :=
  (List.range' i (ratio - i)).filter a.present

/-- A loop over the slots may start at the first one of a word, or inside a word in use. -/
def Ready (chain : List (Aggregate K V)) (i : Nat) : Prop :=
  ∀ a ∈ chain.head?, i % 32 = 0 ∨ a.presence (i / 32) ≠ 0#32

def slotsFrom (sh : Shape) (entry : Nat) : List (Aggregate K V) → Nat → Nat → List Location
  | [], _, _ => []
  | a :: rest, n, i => (a.usedFrom sh.ratio i).map (⟨entry, n, ·⟩) ++ slotsFrom sh entry rest (n + 1) 0

def BasicHashMap.slotsAfter (sh : Shape) (m : BasicHashMap K V) (entry : Nat) : List Location :=
  (List.range' entry (sh.capacity - entry)).flatMap fun e => slotsFrom sh e (m.entries e) 0 0

theorem find?_range' (p : Nat → Bool) (n : Nat) : ∀ i, (List.range' i n).find? p = none ∧
    (List.range' i n).filter p = [] ∨
      ∃ j, (List.range' i n).find? p = some j ∧ p j = true ∧
        (List.range' i n).filter p = j :: (List.range' (j + 1) (i + n - (j + 1))).filter p := by
  induction n with
  | zero => exact fun i => .inl ⟨rfl, rfl⟩
  | succ n ih =>
    intro i
    rw [List.range'_succ]
    cases hp : p i with
    | true =>
      right
      refine ⟨i, List.find?_cons_of_pos hp, hp, ?_⟩
      rw [List.filter_cons_of_pos hp]
      congr 3
      omega
    | false =>
      rw [List.find?_cons_of_neg (by simp [hp]), List.filter_cons_of_neg (by simp [hp])]
      obtain h | ⟨j, hj, hpj, hrest⟩ := ih (i + 1)
      · exact .inl h
      · refine .inr ⟨j, hj, hpj, ?_⟩
        rw [hrest]
        congr 3
        omega

theorem ready_next {a : Aggregate K V} {j : Nat} (h : a.present j = true) :
    (j + 1) % 32 = 0 ∨ a.presence ((j + 1) / 32) ≠ 0#32 := by
  by_cases h0 : (j + 1) % 32 = 0
  · exact .inl h0
  · right
    intro hword
    have hsame : (j + 1) / 32 = j / 32 := by omega
    rw [hsame] at hword
    rw [Aggregate.present_eq, hword, BitVec.getLsbD_zero] at h
    cases h

theorem scan_used (sh : Shape) {a : Aggregate K V} {i : Nat} (hi : i % 32 = 0 ∨ a.presence (i / 32) ≠ 0#32) :
    scan sh.ratio (fun i => a.presence (i / 32) == 0#32) a.present i = none ∧ a.usedFrom sh.ratio i = [] ∨
      ∃ j, scan sh.ratio (fun i => a.presence (i / 32) == 0#32) a.present i = some j ∧ a.present j = true ∧
        a.usedFrom sh.ratio i = j :: a.usedFrom sh.ratio (j + 1) := by
  have hscan : scan sh.ratio (fun i => a.presence (i / 32) == 0#32) a.present i =
      (List.range' i (sh.ratio - i)).find? a.present := by
    refine scan_eq (fun j k h => by rw [h]) (fun j k hs hk => Aggregate.present_of_empty hs hk) i ?_
    exact hi.imp_right fun hne => beq_eq_false_iff_ne.mpr hne
  rw [hscan]
  obtain h | ⟨j, hj, hp, hrest⟩ := find?_range' a.present (sh.ratio - i) i
  · exact .inl h
  · refine .inr ⟨j, hj, hp, ?_⟩
    have hmem := List.mem_range'_1.mp (List.mem_of_find?_eq_some hj)
    unfold Aggregate.usedFrom
    rw [hrest]
    congr 3
    omega

theorem scanChain_cases (sh : Shape) (entry : Nat) (chain : List (Aggregate K V)) (n i : Nat) (h : Ready chain i) :
    scanChain sh chain n i = none ∧ slotsFrom sh entry chain n i = [] ∨
      ∃ k j, scanChain sh chain n i = some (n + k, j) ∧ Ready (chain.drop k) (j + 1) ∧
        slotsFrom sh entry chain n i = ⟨entry, n + k, j⟩ :: slotsFrom sh entry (chain.drop k) (n + k) (j + 1) := by
  induction chain generalizing n i with
  | nil => exact .inl ⟨rfl, rfl⟩
  | cons a rest ih =>
    rw [scanChain, slotsFrom]
    obtain ⟨hnone, hempty⟩ | ⟨j, hsome, hp, hused⟩ := scan_used sh (h a rfl)
    · rw [hnone, hempty, List.map_nil, List.nil_append]
      obtain hrest | ⟨k, j, hsome, hready, hslots⟩ := ih (n + 1) 0 fun _ _ => .inl rfl
      · exact .inl hrest
      · refine .inr ⟨k + 1, j, ?_, hready, ?_⟩
        · simp only [hsome, Nat.add_assoc, Nat.add_comm 1]
        · simp only [hslots, List.drop_succ_cons, Nat.add_assoc, Nat.add_comm 1]
    · rw [hsome]
      refine .inr ⟨0, j, rfl, fun b hb => ?_, ?_⟩
      · obtain rfl : a = b := Option.some.inj hb
        exact ready_next hp
      · rw [hused]
        rfl

namespace BasicHashMap

variable {sh : Shape} {m : BasicHashMap K V}

/-- An iterator at `l` with the slots `rest` behind it. -/
structure At (sh : Shape) (m : BasicHashMap K V) (it : Iterator) (l : Location) (rest : List Location) : Prop where
  error : it.error = false
  entry : it.entry = l.entry
  agg : it.agg = some l.agg
  i : it.i = l.i
  inside : l.entry < sh.capacity
  ready : Ready ((m.entries l.entry).drop l.agg) (l.i + 1)
  rest : rest = slotsFrom sh l.entry ((m.entries l.entry).drop l.agg) l.agg (l.i + 1) ++ m.slotsAfter sh (l.entry + 1)

theorem slotsAfter_cons {e : Nat} (he : e < sh.capacity) :
    m.slotsAfter sh e = slotsFrom sh e (m.entries e) 0 0 ++ m.slotsAfter sh (e + 1) := by
  obtain ⟨n, hn⟩ : ∃ n, sh.capacity - e = n + 1 := ⟨sh.capacity - e - 1, by omega⟩
  have hrest : sh.capacity - (e + 1) = n := by omega
  unfold slotsAfter
  rw [hn, hrest, List.range'_succ, List.flatMap_cons]

theorem slotsAfter_end {e : Nat} (he : ¬ e < sh.capacity) : m.slotsAfter sh e = [] := by
  unfold slotsAfter
  rw [Nat.sub_eq_zero_of_le (by omega)]
  rfl

/-- The slots found from a chain on. -/
theorem scanEntries_cases (sh : Shape) (m : BasicHashMap K V) (e : Nat) :
    m.scanEntries sh e = none ∧ m.slotsAfter sh e = [] ∨
      ∃ l rest, m.scanEntries sh e = some l ∧ m.slotsAfter sh e = l :: rest ∧
        ∀ ref, At sh m ⟨false, ref, l.entry, some l.agg, l.i⟩ l rest := by
  fun_induction scanEntries sh m e with
  | case1 e he n i hchain =>
    obtain ⟨hnone, -⟩ | ⟨k, j, hsome, hready, hslots⟩ := scanChain_cases sh e (m.entries e) 0 0 fun _ _ => .inl rfl
    · rw [hchain] at hnone
      cases hnone
    · rw [hchain, Nat.zero_add] at hsome
      cases hsome
      rw [Nat.zero_add] at hslots
      refine .inr ⟨⟨e, n, i⟩, _, rfl, ?_, fun ref => ⟨rfl, rfl, rfl, rfl, he, hready, rfl⟩⟩
      rw [slotsAfter_cons he, hslots, List.cons_append]
  | case2 e he hchain ih =>
    obtain ⟨-, hempty⟩ | ⟨k, j, hsome, -, -⟩ := scanChain_cases sh e (m.entries e) 0 0 fun _ _ => .inl rfl
    · rw [slotsAfter_cons he, hempty, List.nil_append]
      exact ih
    · rw [hchain] at hsome
      cases hsome
  | case3 e he => exact .inl ⟨rfl, slotsAfter_end he⟩

/-- `++` goes to the next slot in use. -/
theorem At.next {it : Iterator} {l : Location} {rest : List Location} (h : At sh m it l rest) :
    rest = [] ∧ (m.next sh it).error = true ∨
      ∃ l' rest', rest = l' :: rest' ∧ (m.next sh it).ref = it.ref + 1 ∧ At sh m (m.next sh it) l' rest' := by
  unfold BasicHashMap.next
  rw [h.error, if_neg (by decide), h.entry, if_pos h.inside, h.agg, h.i]
  dsimp only [Option.getD_some]
  obtain ⟨hnone, hempty⟩ | ⟨k, j, hsome, hready, hslots⟩ :=
    scanChain_cases sh l.entry ((m.entries l.entry).drop l.agg) l.agg (l.i + 1) h.ready
  · rw [hnone]
    have hrest := h.rest
    rw [hempty, List.nil_append] at hrest
    obtain ⟨hnone', hempty'⟩ | ⟨l', rest', hsome', hslots', hat⟩ := scanEntries_cases sh m (l.entry + 1)
    · rw [hnone']
      exact .inl ⟨hrest.trans hempty', rfl⟩
    · rw [hsome']
      exact .inr ⟨l', rest', hrest.trans hslots', rfl, hat _⟩
  · rw [hsome]
    rw [List.drop_drop] at hready hslots
    refine .inr ⟨⟨l.entry, l.agg + k, j⟩, _, ?_, rfl, ⟨rfl, rfl, rfl, rfl, h.inside, hready, rfl⟩⟩
    rw [h.rest, hslots, List.cons_append]

theorem At.walk {rest : List Location} : ∀ {it : Iterator} {l : Location}, At sh m it l rest →
    it.ref + rest.length + 1 = m.elementsCount → walk sh m (rest.length + 2) it = some ((l :: rest).map some) := by
  induction rest with
  | nil =>
    intro it l h hcount
    have hne : it.equals m.finish = false := by
      simp [Iterator.equals, finish, h.error, show it.ref ≠ m.elementsCount by simp at hcount; omega]
    have hderef : it.deref = some l := by
      simp [Iterator.deref, h.error, h.agg, h.entry, h.i]
    obtain ⟨-, herror⟩ | ⟨_, _, hrest, -⟩ := h.next
    · have hend : (m.next sh it).equals m.finish = true := by
        simp [Iterator.equals, herror]
      simp [Ext.walk, hne, hend, hderef]
    · cases hrest
  | cons l' rest ih =>
    intro it l h hcount
    have hne : it.equals m.finish = false := by
      simp [Iterator.equals, finish, h.error, show it.ref ≠ m.elementsCount by simp at hcount; omega]
    have hderef : it.deref = some l := by
      simp [Iterator.deref, h.error, h.agg, h.entry, h.i]
    obtain ⟨hrest, -⟩ | ⟨l'', rest', hrest, href, hnext⟩ := h.next
    · cases hrest
    · cases hrest
      have hwalk := ih hnext (by rw [href]; simp at hcount; omega)
      rw [Ext.walk, hne, if_neg (by decide), List.length_cons, hwalk, hderef]
      rfl

/-- The slots in use, in the order of the table. -/
def locations (sh : Shape) (m : BasicHashMap K V) : List Location := m.slotsAfter sh 0

theorem firstEntry_slots (sh : Shape) (m : BasicHashMap K V) (e : Nat) (he : e ≤ sh.capacity) :
    m.firstEntry sh e ≤ sh.capacity ∧ m.slotsAfter sh (m.firstEntry sh e) = m.slotsAfter sh e := by
  fun_induction firstEntry sh m e with
  | case1 e h ih =>
    obtain ⟨hle, hslots⟩ := ih (by omega)
    refine ⟨hle, hslots.trans ?_⟩
    rw [slotsAfter_cons h.1, h.2]
    rfl
  | case2 e h => exact ⟨he, rfl⟩

/-- The loop from `begin()` to `end()` comes to an end and to each slot in use. -/
theorem walk_locations (hcount : m.elementsCount = (m.locations sh).length) :
    Ext.walk sh m (m.elementsCount + 1) (m.start sh) = some ((m.locations sh).map some) := by
  unfold start
  by_cases h0 : m.elementsCount = 0
  · have hempty : m.locations sh = [] := List.length_eq_zero_iff.mp (hcount.symm.trans h0)
    rw [if_pos h0, hempty, Ext.walk, if_pos]
    · rfl
    · simp [Iterator.equals]
  · obtain ⟨hle, hslots⟩ := firstEntry_slots sh m 0 (Nat.zero_le _)
    rw [if_neg h0]
    dsimp only
    rw [if_neg (by omega)]
    obtain ⟨-, hempty⟩ | ⟨l, rest, hsome, hrest, hat⟩ := scanEntries_cases sh m (m.firstEntry sh 0)
    · rw [hslots] at hempty
      rw [locations, hempty] at hcount
      exact absurd hcount h0
    · rw [hslots] at hrest
      have hlocations : m.locations sh = l :: rest := hrest
      rw [hlocations, List.length_cons] at hcount
      rw [hsome, hlocations, hcount]
      exact (hat 0).walk (by simp [hcount])

/-- The pair in a slot. -/
def pair? (m : BasicHashMap K V) (l : Location) : Option (K × V) :=
  ((m.entries l.entry)[l.agg]?).map fun a => (a.keys l.i, a.values l.i)

theorem slotsFrom_pairs {e : Nat} (xs : List (Aggregate K V)) {chain : List (Aggregate K V)} (h : m.entries e = xs ++ chain) :
    (slotsFrom sh e chain xs.length 0).map m.pair? = (chainContents sh.ratio chain).map some := by
  induction chain generalizing xs with
  | nil => rfl
  | cons a rest ih =>
    have hrest : m.entries e = (xs ++ [a]) ++ rest := by rw [h, List.append_assoc]; rfl
    have htail := ih (xs ++ [a]) hrest
    rw [List.length_append, List.length_singleton] at htail
    have hfirst : ((a.usedFrom sh.ratio 0).map (⟨e, xs.length, ·⟩ : Nat → Location)).map m.pair? =
        (a.contents sh.ratio).map some := by
      unfold Aggregate.contents Aggregate.used Aggregate.usedFrom
      rw [List.map_map, List.map_map, Nat.sub_zero, ← List.range_eq_range']
      refine List.map_congr_left fun i _ => ?_
      simp [pair?, h]
    have hchain : chainContents sh.ratio (a :: rest) = a.contents sh.ratio ++ chainContents sh.ratio rest := rfl
    rw [slotsFrom, List.map_append, hfirst, htail, hchain, List.map_append]

/-- What is found in the slots is what is stored. -/
theorem locations_pairs (sh : Shape) (m : BasicHashMap K V) :
    (m.locations sh).map m.pair? = (m.contents sh).map some := by
  unfold locations slotsAfter contents
  rw [List.map_flatMap, List.map_flatMap, Nat.sub_zero, ← List.range_eq_range']
  exact List.flatMap_congr fun e _ => slotsFrom_pairs [] rfl

end BasicHashMap

end

/-! ## Every sequence of insertions -/

section
variable {K V : Type} [DecidableEq K] [Zero K]

/-- A call of `insert`, with the memory it may get. -/
structure Insertion (K V : Type) where
  key : K
  value : V
  mem : Option (Nat → V)

/-- The map, and the insertions that have succeeded, the last one first. -/
def after (sh : Shape) (hash : K → Nat) : List (Insertion K V) → BasicHashMap K V × List (K × V)
  | [] => (.empty, [])
  | x :: earlier =>
    let (m, inserted) := after sh hash earlier
    match m.insert sh hash x.key x.value x.mem with
    | (some _, m) => (m, (x.key, x.value) :: inserted)
    | (none, m) => (m, inserted)

/-- The last insertion of a key. -/
def last (inserted : List (K × V)) (key : K) : Option (K × V) := inserted.find? fun x => x.1 = key

/-- A finite map. -/
structure IsMap (sh : Shape) (hash : K → Nat) (m : BasicHashMap K V) (inserted : List (K × V)) : Prop where
  lookup : ∀ key, (m.atKey sh hash key).bind m.value? = (last inserted key).map Prod.snd
  size : m.elementsCount = (inserted.map Prod.fst).dedup.length
  unchanged : ∀ key value mem, (m.insert sh hash key value mem).1 = none → (m.insert sh hash key value mem).2 = m
  stores : ∀ key value mem, (m.insert sh hash key value (some mem)).1 ≠ none
  visits : ∃ (turns : Nat) (locs : List Location), walk sh m turns (m.start sh) = some (locs.map some) ∧ locs.Nodup ∧
    (locs.map m.pair?).Perm ((inserted.map Prod.fst).dedup.map (last inserted))

/-- The map holds the last insertion of every key. -/
structure Represents (sh : Shape) (hash : K → Nat) (m : BasicHashMap K V) (inserted : List (K × V)) : Prop where
  inv : m.Inv sh hash
  mem : ∀ x, x ∈ m.contents sh ↔ last inserted x.1 = some x

variable {sh : Shape} {hash : K → Nat} {m : BasicHashMap K V} {inserted : List (K × V)}

omit [Zero K] in
theorem last_cons (inserted : List (K × V)) (x : K × V) (key : K) :
    last (x :: inserted) key = if x.1 = key then some x else last inserted key := by
  unfold last
  by_cases h : x.1 = key
  · rw [List.find?_cons_of_pos (by simpa using h), if_pos h]
  · rw [List.find?_cons_of_neg (by simpa using h), if_neg h]

omit [Zero K] in
theorem last_fst {key : K} {x : K × V} (h : last inserted key = some x) : x.1 = key := by
  simpa using List.find?_some h

omit [Zero K] in
/-- The pair of `key` replaces the one before. -/
theorem Represents.insert {m' : BasicHashMap K V} {key : K} {value : V} {rest : List (K × V)}
    (h : Represents sh hash m inserted) (hi : m'.Inv sh hash) (hnew : (m'.contents sh).Perm ((key, value) :: rest))
    (hold : (m.contents sh).Perm rest ∨ ∃ old, (m.contents sh).Perm ((key, old) :: rest)) :
    Represents sh hash m' ((key, value) :: inserted) := by
  refine ⟨hi, fun x => ?_⟩
  have hkeys := (hnew.map Prod.fst).nodup_iff.mp hi.nodup
  have hnot : key ∉ rest.map Prod.fst := (List.nodup_cons.mp hkeys).1
  rw [hnew.mem_iff, List.mem_cons, last_cons]
  by_cases hx : key = x.1
  · rw [if_pos hx, Option.some.injEq]
    constructor
    · rintro (rfl | hm)
      · rfl
      · exact absurd (List.mem_map.mpr ⟨x, hm, hx.symm⟩) hnot
    · exact fun he => .inl he.symm
  · rw [if_neg hx, ← h.mem]
    have hne : x ≠ (key, value) := fun he => hx (by rw [he])
    rcases hold with hold | ⟨old, hold⟩
    · rw [hold.mem_iff]
      simp only [hne, false_or]
    · have hne' : x ≠ (key, old) := fun he => hx (by rw [he])
      rw [hold.mem_iff, List.mem_cons]
      simp only [hne, hne', false_or]

theorem represents_after (sh : Shape) (hash : K → Nat) (calls : List (Insertion K V)) :
    Represents sh hash (after sh hash calls).1 (after sh hash calls).2 := by
  induction calls with
  | nil =>
    refine ⟨BasicHashMap.inv_empty sh hash, fun x => ?_⟩
    simp [after, last, BasicHashMap.contents_empty]
  | cons x earlier ih =>
    rw [after]
    obtain ⟨hrun, -⟩ | ⟨l, m', rest, hrun, -, hinv, hnew, hold⟩ := ih.inv.insert x.key x.value x.mem
    · simp only [hrun]
      exact ih
    · simp only [hrun]
      exact ih.insert hinv hnew hold

omit [Zero K] in
theorem Represents.keys (h : Represents sh hash m inserted) :
    ((m.contents sh).map Prod.fst).Perm (inserted.map Prod.fst).dedup := by
  refine (List.perm_ext_iff_of_nodup h.inv.nodup (List.nodup_dedup _)).mpr fun key => ?_
  rw [List.mem_dedup, List.mem_map, List.mem_map]
  constructor
  · rintro ⟨x, hx, rfl⟩
    have hlast := (h.mem x).mp hx
    exact ⟨x, List.mem_of_find?_eq_some hlast, rfl⟩
  · rintro ⟨x, hx, rfl⟩
    have hsome : (last inserted x.1).isSome := by
      unfold last
      rw [List.find?_isSome]
      exact ⟨x, hx, by simp⟩
    obtain ⟨y, hy⟩ := Option.isSome_iff_exists.mp hsome
    have hfst := last_fst hy
    exact ⟨y, (h.mem y).mpr (by rw [hfst]; exact hy), hfst⟩

theorem Represents.isMap (h : Represents sh hash m inserted) : IsMap sh hash m inserted where
  lookup key := by
    refine Option.ext fun value => ?_
    rw [h.inv.atKey_contents, h.mem, Option.map_eq_some_iff]
    constructor
    · exact fun hl => ⟨_, hl, rfl⟩
    · rintro ⟨x, hx, rfl⟩
      have hfst := last_fst hx
      rw [← hfst] at hx ⊢
      exact hx
  size := by rw [h.inv.count, ← h.keys.length_eq, List.length_map]
  unchanged key value mem hnone := by
    obtain ⟨hrun, -⟩ | ⟨l, m', rest, hrun, -⟩ := h.inv.insert key value mem
    · rw [hrun]
    · rw [hrun] at hnone
      cases hnone
  stores key value mem := by
    obtain ⟨-, hmem⟩ | ⟨l, m', rest, hrun, -⟩ := h.inv.insert key value (some mem)
    · cases hmem
    · rw [hrun]
      exact Option.some_ne_none _
  visits := by
    have hpairs := BasicHashMap.locations_pairs sh m
    have hlength : m.elementsCount = (m.locations sh).length := by
      have hlength := congrArg List.length hpairs
      rw [List.length_map, List.length_map] at hlength
      rw [h.inv.count, hlength]
    have hlast : (m.contents sh).map some = ((m.contents sh).map Prod.fst).map (last inserted) := by
      rw [List.map_map]
      exact List.map_congr_left fun x hx => ((h.mem x).mp hx).symm
    refine ⟨_, _, BasicHashMap.walk_locations hlength, ?_, ?_⟩
    · have hnodup : ((m.contents sh).map some).Nodup := by
        refine List.Nodup.of_map (Option.map Prod.fst) ?_
        rw [List.map_map]
        have hkeys : ((m.contents sh).map (Option.map Prod.fst ∘ some)) = ((m.contents sh).map Prod.fst).map some := by
          rw [List.map_map]
          rfl
        rw [hkeys]
        exact h.inv.nodup.map fun _ _ he => Option.some.inj he
      rw [← hpairs] at hnodup
      exact hnodup.of_map
    · rw [hpairs, hlast]
      exact h.keys.map _

/-- For every capacity and aggregate ratio, every hash function and every sequence of insertions,
whatever memory they get: the table is a finite map. -/
theorem hashMap_is_map (sh : Shape) (hash : K → Nat) (calls : List (Insertion K V)) :
    IsMap sh hash (after sh hash calls).1 (after sh hash calls).2 :=
  (represents_after sh hash calls).isMap

end

end BadLands.Ext
