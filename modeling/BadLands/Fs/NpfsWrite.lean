import BadLands.Fs.NpfsAlloc
import BadLands.Fs.NpfsFile

/-!
# NPFS writes when the heap runs out

`NPFS::File::Write` over data nodes whose heap may refuse any allocation. It sets the size first, then
asks for the blocks of its range one after another and copies into each as it comes: when a block is
denied, whatever was done by then stays.

A write is the list of its calls for blocks (`writeCalls`) and the answer it has when all of them are
served (`write_eq`). `write_keeps_iff` says when one that answers `DEVICE_ERROR` has left the file as
it was.
-/
namespace BadLands.Fs.Npfs.Alloc

open BadLands.Core

/-- The loop over the whole blocks: each is looked up and compared.
mirrors kernel/src/fs/NPFS.cpp:736-746 -/
def touchBlocks (heap : Nat → Bool) : (first n : Nat) → DataNode → Nat → Option (Bool × DataNode × Nat)
  | _, 0, data, t => some (true, data, t)
  | first, n + 1, data, t => do
    let (ok, data, t) ← DataNode.getBlock heap data first id t
    if !ok then return (false, data, t)
    touchBlocks heap (first + 1) n data t

/-- The part of `Write` after the fragment in the first block.
mirrors kernel/src/fs/NPFS.cpp:713-749 -/
def writeRest (heap : Nat → Bool) (f : File) (offset count finish done : Nat) (buffer : Nat → UInt8) (t : Nat) :
    Option (Answer × File × Nat) := do
  let remaining := finish % blockSize
  let total := done + count
  let tail := if remaining ≠ 0
    then DataNode.getBlock heap f.data (finish / blockSize)
      (fun blk => copy blk (finish - remaining) remaining fun i => buffer (total - remaining + i)) t
    else some (true, f.data, t)
  let (ok, data, t) ← tail
  let f := { f with data := data }
  if !ok then return (.response (.error .deviceError), f, t)
  if !tailInBlock finish remaining then return (.outOfBlock, f, t)
  let count := count - remaining
  if offset % blockSize ≠ 0 ∨ count % blockSize ≠ 0 then return (.response (.error .deviceError), f, t)
  let (ok, data, t) ← touchBlocks heap (offset / blockSize) (count / blockSize) f.data t
  let f := { f with data := data }
  if !ok then return (.response (.error .deviceError), f, t)
  return (.response (.ok (total - (done + count / blockSize * blockSize))), f, t)

/-- The count that is left of one that goes past the end of the address space. -/
def clip (offset count : Nat) : Nat :=
  if Word.add offset count < offset then Word.sub (2 ^ 64 - 1) offset else count

/-- mirrors kernel/src/fs/NPFS.cpp:661-750 -/
def write (heap : Nat → Bool) (f : File) (offset count : Nat) (buffer : Nat → UInt8) (t : Nat) :
    Option (Answer × File × Nat) := do
  let count := clip offset count
  let blockOffset := offset % blockSize
  let finish := Word.add offset count
  let firstBlock := offset / blockSize
  let f := { f with size := if finish > f.size then finish else f.size }
  if firstBlock = finish / blockSize then
    let (ok, data, t) ← DataNode.getBlock heap f.data firstBlock (fun blk => copy blk blockOffset count buffer) t
    let f := { f with data := data }
    if ok then return (.response (.ok count), f, t)
    return (.response (.error .deviceError), f, t)
  if blockOffset ≠ 0 then
    let untilNextBlock := blockSize - blockOffset
    let (ok, data, t) ←
      DataNode.getBlock heap f.data firstBlock (fun blk => copy blk blockOffset untilNextBlock buffer) t
    let f := { f with data := data }
    if !ok then return (.response (.error .deviceError), f, t)
    writeRest heap f (offset + untilNextBlock) (count - untilNextBlock) finish untilNextBlock buffer t
  else writeRest heap f offset count finish 0 buffer t

/-! ## The calls of a write -/

/-- The calls one after another, up to the first that returns null. -/
def serve (heap : Nat → Bool) : List Call → DataNode → Nat → Option (Bool × DataNode × Nat)
  | [], n, t => some (true, n, t)
  | c :: calls, n, t => do
    let (ok, n, t) ← DataNode.getBlock heap n c.blockId c.use t
    if !ok then return (false, n, t)
    serve heap calls n t

/-- The calls for the last fragment or the whole blocks: with a last fragment, whose bytes go past the
block, nothing is said about the rest. -/
def restCalls (offset count finish done : Nat) (buffer : Nat → UInt8) : List Call :=
  if finish % blockSize ≠ 0 then
    [⟨finish / blockSize, fun blk => copy blk (finish - finish % blockSize) (finish % blockSize)
      fun i => buffer (done + count - finish % blockSize + i)⟩]
  else (List.range (count / blockSize)).map fun i => ⟨offset / blockSize + i, id⟩

/-- The call for the first fragment of a write over more than one block. -/
def headCall (offset : Nat) (buffer : Nat → UInt8) : Call :=
  ⟨offset / blockSize, fun blk => copy blk (offset % blockSize) (blockSize - offset % blockSize) buffer⟩

def writeCalls (offset count : Nat) (buffer : Nat → UInt8) : List Call :=
  if offset / blockSize = (offset + count) / blockSize then
    [⟨offset / blockSize, fun blk => copy blk (offset % blockSize) count buffer⟩]
  else if offset % blockSize ≠ 0 then
    headCall offset buffer :: restCalls (offset + (blockSize - offset % blockSize))
      (count - (blockSize - offset % blockSize)) (offset + count) (blockSize - offset % blockSize) buffer
  else restCalls offset count (offset + count) 0 buffer

section
variable {heap : Nat → Bool} {f : File} {offset count finish done t : Nat} {buffer : Nat → UInt8}

theorem touchBlocks_eq (first n : Nat) (data : DataNode) (t : Nat) : touchBlocks heap first n data t =
    serve heap ((List.range n).map fun i => ⟨first + i, id⟩) data t := by
  induction n generalizing first data t with
  | zero => rfl
  | succ n ih =>
    have hcalls : ((List.range (n + 1)).map fun i => (⟨first + i, id⟩ : Call)) =
        ⟨first, id⟩ :: (List.range n).map fun i => ⟨first + 1 + i, id⟩ := by
      rw [List.range_succ_eq_map, List.map_cons, List.map_map]
      congr 1
      apply List.map_congr_left
      intro i _
      show (⟨first + (i + 1), id⟩ : Call) = ⟨first + 1 + i, id⟩
      rw [show first + (i + 1) = first + 1 + i by omega]
    rw [hcalls, touchBlocks, serve]
    congr 1
    funext r
    obtain ⟨ok, data', t'⟩ := r
    simp only [ih]

theorem serve_one (c : Call) (n : DataNode) (t : Nat) :
    serve heap [c] n t = DataNode.getBlock heap n c.blockId c.use t := by
  rw [serve]
  cases DataNode.getBlock heap n c.blockId c.use t with
  | none => rfl
  | some r =>
    obtain ⟨ok, n', t'⟩ := r
    cases ok <;> rfl

theorem clip_lt (hoffset : offset < 2 ^ 64) (hcount : count < 2 ^ 64) : offset + clip offset count < 2 ^ 64 := by
  unfold clip Word.add Word.sub
  split
  · split
    · omega
    · omega
  · omega

/-- The bytes of the last fragment are addressed past the block, where there are any. -/
theorem tailInBlock_eq (h : blockSize ≤ finish) :
    tailInBlock finish (finish % blockSize) = decide (finish % blockSize = 0) := by
  unfold tailInBlock
  by_cases hzero : finish % blockSize = 0
  · rw [hzero]
    rfl
  · rw [decide_eq_false hzero, List.all_eq_false]
    refine ⟨0, List.mem_range.mpr (Nat.pos_of_ne_zero hzero), ?_⟩
    rw [decide_eq_true_eq]
    unfold blockSize at *
    omega

theorem writeRest_eq (hoffset : offset % blockSize = 0) (hfinish : offset + count = finish) (hbig : blockSize ≤ finish) :
    writeRest heap f offset count finish done buffer t =
      (serve heap (restCalls offset count finish done buffer) f.data t).map fun r =>
        (if r.1 then if finish % blockSize ≠ 0 then .outOfBlock else .response (.ok 0)
          else .response (.error .deviceError), ⟨r.2.1, f.size⟩, r.2.2) := by
  have htail := tailInBlock_eq hbig
  unfold writeRest restCalls
  by_cases hzero : finish % blockSize = 0
  · have hcount : count % blockSize = 0 := by
      unfold blockSize at *
      omega
    have hleft : done + count - (done + count / blockSize * blockSize) = 0 := by
      unfold blockSize at *
      omega
    rw [hzero] at htail
    simp only [hzero, ne_eq, not_true_eq_false, if_false, Option.bind_eq_bind, Option.bind_some, Bool.not_true,
      Bool.false_eq_true, htail, decide_true, Nat.sub_zero, hoffset, hcount, or_self, touchBlocks_eq, hleft]
    cases serve heap ((List.range (count / blockSize)).map fun i => ⟨offset / blockSize + i, id⟩) f.data t with
    | none => rfl
    | some r =>
      obtain ⟨ok, n', t'⟩ := r
      cases ok <;> rfl
  · simp only [if_pos hzero, serve_one, Option.bind_eq_bind, htail, decide_eq_false hzero]
    cases DataNode.getBlock heap f.data (finish / blockSize) _ t with
    | none => rfl
    | some r =>
      obtain ⟨ok, n', t'⟩ := r
      cases ok <;> rfl

/-- The answer of a write whose calls are all served. -/
def writeAnswer (offset count : Nat) : Answer :=
  if offset / blockSize = (offset + count) / blockSize then .response (.ok count)
  else if (offset + count) % blockSize ≠ 0 then .outOfBlock
  else .response (.ok 0)

theorem write_eq (hoffset : offset < 2 ^ 64) (hcount : count < 2 ^ 64) : write heap f offset count buffer t =
    (serve heap (writeCalls offset (clip offset count) buffer) f.data t).map fun r =>
      (if r.1 then writeAnswer offset (clip offset count) else .response (.error .deviceError),
        ⟨r.2.1, max f.size (offset + clip offset count)⟩, r.2.2) := by
  have hlt := clip_lt hoffset hcount
  have hsize : ∀ k, (if offset + k > f.size then offset + k else f.size) = max f.size (offset + k) := by
    intro k
    split <;> omega
  unfold write writeCalls writeAnswer
  simp only [Word.add_eq hlt, hsize]
  generalize clip offset count = k at hlt
  by_cases hone : offset / blockSize = (offset + k) / blockSize
  · simp only [if_pos hone, serve_one, Option.bind_eq_bind]
    cases DataNode.getBlock heap f.data (offset / blockSize) _ t with
    | none => rfl
    | some r =>
      obtain ⟨ok, n', t'⟩ := r
      cases ok <;> rfl
  · have hbig : blockSize ≤ offset + k := by
      unfold blockSize at *
      omega
    simp only [if_neg hone]
    by_cases hhead : offset % blockSize = 0
    · simp only [hhead, ne_eq, not_true_eq_false, if_false]
      exact writeRest_eq hhead rfl hbig
    · have hnext : offset + (blockSize - offset % blockSize) + (k - (blockSize - offset % blockSize)) = offset + k := by
        unfold blockSize at *
        omega
      have haligned : (offset + (blockSize - offset % blockSize)) % blockSize = 0 := by
        unfold blockSize at *
        omega
      simp only [ne_eq, hhead, not_false_eq_true, if_true, serve, headCall, Option.bind_eq_bind]
      cases DataNode.getBlock heap f.data (offset / blockSize) _ t with
      | none => rfl
      | some r =>
        obtain ⟨ok, n', t'⟩ := r
        cases ok with
        | false => rfl
        | true => exact writeRest_eq haligned hnext hbig

end

/-! ## What reads tell of a file -/

/-- No read tells the files apart. -/
def Same (f f' : File) : Prop :=
  f'.size = f.size ∧ ∀ offset count dest, read f' offset count dest = read f offset count dest

/-- A byte of a file, where there is a block. -/
def peek (f : File) (i : Nat) : Option UInt8 := (f.data.getWeakBlock (i / blockSize)).map fun b => b (i % blockSize)

section
variable {f f' : File} {i : Nat}

theorem readBlocks_congr {data data' : DataNode} (h : ∀ k, data'.getWeakBlock k = data.getWeakBlock k) (n first : Nat)
    (dest : Nat → UInt8) (start : Nat) : readBlocks data' first dest start n = readBlocks data first dest start n := by
  induction n generalizing first dest start with
  | zero => rfl
  | succ n ih => rw [readBlocks, readBlocks, h, ih]

theorem same_of_blocks (hsize : f'.size = f.size) (h : ∀ k, f'.data.getWeakBlock k = f.data.getWeakBlock k) :
    Same f f' := by
  refine ⟨hsize, fun offset count dest => ?_⟩
  unfold read readRest readRest.finishRead
  simp only [hsize, h, readBlocks_congr h]

/-- A read of one byte leaves the byte in the destination, or what was there. -/
theorem read_byte (hi : i < f.size) (hsize : f.size < 2 ^ 64) (dest : Nat → UInt8) :
    (read f i 1 dest).2 0 = (peek f i).getD (dest 0) := by
  have hcopy : ∀ source, copyWeak dest 0 1 (f.data.getWeakBlock (i / blockSize)) source 0 =
      ((f.data.getWeakBlock (i / blockSize)).map fun b => b source).getD (dest 0) := by
    intro source
    cases f.data.getWeakBlock (i / blockSize) with
    | none => rfl
    | some b => rfl
  have hmin : min (i + 1) f.size = i + 1 := by omega
  by_cases hone : InOneBlock i (min (i + 1) f.size)
  · rw [read_eq_one f (by omega) hi hone, show min 1 (f.size - i) = 1 by omega]
    exact hcopy _
  · have hlast : i % blockSize ≠ 0 ∧ blockSize - i % blockSize = 1 ∧ (i + 1) % blockSize = 0 := by
      rw [hmin] at hone
      unfold InOneBlock blockSize at *
      omega
    obtain ⟨hne, huntil, hzero⟩ := hlast
    have hcross : ¬ i / blockSize = (i + 1) / blockSize := by
      rw [hmin] at hone
      exact hone
    have hcount : i + 1 - i = 1 := by omega
    rw [read, if_neg (by omega), getEffectiveEnd_eq _ (by omega), hmin]
    simp only [if_neg hcross, if_pos hne, huntil, hcount, readRest, hzero, ne_eq, not_true_eq_false, if_false,
      readRest.finishRead, Nat.sub_self, Nat.zero_mod, or_self, Nat.zero_div, readBlocks]
    exact hcopy _

theorem Same.peek (h : Same f f') (hi : i < f.size) (hsize : f.size < 2 ^ 64) : peek f' i = peek f i := by
  have hread : ∀ v : UInt8, (Alloc.peek f' i).getD v = (Alloc.peek f i).getD v := by
    intro v
    rw [← read_byte (i := i) (f := f) hi hsize fun _ => v, ← h.2 i 1 fun _ => v]
    exact (read_byte (i := i) (f := f') (by rw [h.1]; exact hi) (by rw [h.1]; exact hsize) fun _ => v).symm
  cases hnew : Alloc.peek f' i with
  | none =>
    cases hold : Alloc.peek f i with
    | none => rfl
    | some b =>
      rw [hnew, hold] at hread
      have hzero : 0 = b := hread 0
      have hone : 1 = b := hread 1
      rw [← hzero] at hone
      cases hone
  | some b =>
    cases hold : Alloc.peek f i with
    | none =>
      rw [hnew, hold] at hread
      have hzero : b = 0 := hread 0
      have hone : b = 1 := hread 1
      rw [hzero] at hone
      cases hone
    | some b' =>
      rw [hnew, hold] at hread
      exact congrArg some (hread 0)

end

/-! ## Blocks that are there -/

/-- The block is there, with what the caller makes of it. -/
def InPlace (n : DataNode) (c : Call) : Prop := ∃ b, n.getWeakBlock c.blockId = some b ∧ c.use b = b

section
variable {heap : Nat → Bool} {n n' : DataNode} {c : Call} {t t' : Nat}

theorem setSlot_eq {d : Nat} {j : Junction d} {i : Nat} {s : StorageTree d} (h : j i = some s) : setSlot j i s = j := by
  funext k
  by_cases hk : k = i
  · subst hk
    rw [setSlot_same, h]
  · rw [setSlot_other _ _ hk]

theorem getBlock_inPlace {use : Block → Block} {b : Block} {d : Nat} (hd : d ≤ 10) (j : Junction d) {id : Nat}
    (hb : getWeakBlock d j id = some b) (huse : use b = b) :
    id < 64 ^ (d + 1) ∧ missing d j id = 0 ∧ (Npfs.getBlock use d j id).2 = j := by
  have hid : id < 64 ^ (d + 1) := by
    apply Nat.lt_of_not_le
    intro hout
    rw [getWeakBlock_none j hd hout] at hb
    cases hb
  refine ⟨hid, ?_⟩
  induction d generalizing id with
  | zero =>
    have hin : ¬ id ≥ junctionSize := by
      unfold junctionSize
      omega
    rw [getWeakBlock, if_neg hin] at hb
    refine ⟨by rw [missing, hb], ?_⟩
    rw [Npfs.getBlock, if_neg hin, hb, Option.getD_some, huse]
    exact setSlot_eq hb
  | succ d ih =>
    have hr := reductor_eq (d := d + 1) (by omega)
    have hin := in_junction hid
    rw [getWeakBlock, hr, if_neg hin] at hb
    obtain ⟨sub, hsub, hb⟩ := Option.bind_eq_some_iff.mp hb
    obtain ⟨hmissing, hsame⟩ := ih (by omega) sub hb (Nat.mod_lt _ (Nat.pow_pos (by decide)))
    refine ⟨by rw [missing_succ, hsub]; exact hmissing, ?_⟩
    rw [Npfs.getBlock, hr, if_neg hin]
    simp only [hsub, Option.getD_some, hsame]
    exact setSlot_eq hsub

/-- A call for a block that is in place changes nothing. -/
theorem InPlace.getBlock (h : InPlace n c) (hl : n.level ≤ 10) :
    DataNode.getBlock heap n c.blockId c.use t = some (true, n, t) := by
  obtain ⟨b, hb, huse⟩ := h
  obtain ⟨hid, hmissing, hsame⟩ := getBlock_inPlace hl n.data hb huse
  have hget := @getBlock_granted heap c.use n.level c.blockId t hl n.data hid fun i hi => by
    rw [hmissing] at hi
    exact absurd hi (Nat.not_lt_zero i)
  rw [hsame, hmissing] at hget
  rw [DataNode.getBlock, tryBlock, hget]
  rfl

theorem serve_inPlace {pre rest : List Call} (h : ∀ q ∈ pre, InPlace n q) (hl : n.level ≤ 10) :
    serve heap (pre ++ rest) n t = serve heap rest n t := by
  induction pre with
  | nil => rfl
  | cons q pre ih =>
    rw [List.cons_append, serve, (h q List.mem_cons_self).getBlock hl]
    exact ih fun p hp => h p (List.mem_cons_of_mem q hp)

/-- The call that returned null, and those before it. -/
theorem serve_false {calls : List Call} (h : serve heap calls n t = some (false, n', t')) :
    ∃ pre c post n₁ t₁, calls = pre ++ c :: post ∧ serve heap pre n t = some (true, n₁, t₁) ∧
      DataNode.getBlock heap n₁ c.blockId c.use t₁ = some (false, n', t') := by
  induction calls generalizing n t with
  | nil => cases h
  | cons c calls ih =>
    rw [serve] at h
    obtain ⟨⟨ok, n₁, t₁⟩, hget, h⟩ := Option.bind_eq_some_iff.mp h
    cases ok with
    | false =>
      obtain ⟨-, hpair⟩ := Prod.mk.inj (Option.some.inj h)
      obtain ⟨rfl, rfl⟩ := Prod.mk.inj hpair
      exact ⟨[], c, calls, n, t, rfl, rfl, hget⟩
    | true =>
      obtain ⟨pre, c', post, n₂, t₂, rfl, hpre, hnull⟩ := ih h
      refine ⟨c :: pre, c', post, n₂, t₂, rfl, ?_, hnull⟩
      rw [serve, hget]
      exact hpre

/-- The blocks after calls for different ids that were all served. -/
theorem serve_blocks {calls : List Call} (hnodup : (calls.map Call.blockId).Nodup)
    (h : serve heap calls n t = some (true, n', t')) :
    (∀ q ∈ calls, n'.getWeakBlock q.blockId = some (q.use ((n.getWeakBlock q.blockId).getD zeros))) ∧
      ∀ k, k ∉ calls.map Call.blockId → n'.getWeakBlock k = n.getWeakBlock k := by
  induction calls generalizing n t with
  | nil =>
    obtain ⟨-, hpair⟩ := Prod.mk.inj (Option.some.inj h)
    obtain ⟨rfl, -⟩ := Prod.mk.inj hpair
    exact ⟨fun q hq => absurd hq List.not_mem_nil, fun _ _ => rfl⟩
  | cons c calls ih =>
    rw [serve] at h
    obtain ⟨⟨ok, n₁, t₁⟩, hget, h⟩ := Option.bind_eq_some_iff.mp h
    rw [List.map_cons, List.nodup_cons] at hnodup
    cases ok with
    | false =>
      obtain ⟨hok, -⟩ := Prod.mk.inj (Option.some.inj h)
      cases hok
    | true =>
      obtain ⟨hserved, hother⟩ := ih hnodup.2 h
      have hblocks := (tryBlock_blocks hget).2
      refine ⟨fun q hq => ?_, fun k hk => ?_⟩
      · rcases List.mem_cons.mp hq with rfl | hq
        · rw [hother _ hnodup.1, hblocks, if_pos ⟨rfl, rfl⟩]
        · have hne : q.blockId ≠ c.blockId := fun he => hnodup.1 (he ▸ List.mem_map_of_mem hq)
          rw [hserved q hq, hblocks, if_neg fun hk => hne hk.2]
      · rw [List.map_cons, List.mem_cons, not_or] at hk
        rw [hother k hk.2, hblocks, if_neg fun h => hk.1 h.2]

end

/-! ## The calls before one that fails -/

/-- The call changes bytes of its block only that lie before `finish`. -/
def Within (finish : Nat) (c : Call) : Prop :=
  ∃ a b, a < b ∧ b ≤ blockSize ∧ c.blockId * blockSize + b ≤ finish ∧ ∀ blk i, i < a ∨ b ≤ i → c.use blk i = blk i

section
variable {offset count finish done : Nat} {buffer : Nat → UInt8} {pre post : List Call} {c : Call}

theorem copy_outside (dst : Nat → UInt8) {start n i : Nat} (src : Nat → UInt8) (h : i < start ∨ start + n ≤ i) :
    copy dst start n src i = dst i := if_neg (by omega)

/-- In front of a single call there is none. -/
theorem eq_nil_of_singleton {x : Call} (h : [x] = pre ++ c :: post) : pre = [] := by
  cases pre with
  | nil => rfl
  | cons q pre =>
    have hlength := congrArg List.length h
    simp only [List.length_cons, List.length_nil, List.cons_append, List.length_append] at hlength
    omega

theorem restCalls_prefix (hoffset : offset % blockSize = 0) (hfinish : offset + count = finish)
    (h : restCalls offset count finish done buffer = pre ++ c :: post) :
    (pre.map Call.blockId).Nodup ∧ ∀ q ∈ pre, offset / blockSize ≤ q.blockId ∧ Within finish q := by
  unfold restCalls at h
  split at h
  · rw [eq_nil_of_singleton h]
    exact ⟨List.nodup_nil, fun q hq => absurd hq List.not_mem_nil⟩
  · have hnodup : (((List.range (count / blockSize)).map fun i => (⟨offset / blockSize + i, id⟩ : Call)).map
        Call.blockId).Nodup := by
      rw [List.map_map]
      exact List.Pairwise.map _ (fun i k hne he => hne (Nat.add_left_cancel he)) List.nodup_range
    have hpre : pre.Sublist ((List.range (count / blockSize)).map fun i => ⟨offset / blockSize + i, id⟩) := by
      rw [h]
      exact List.sublist_append_left _ _
    refine ⟨(hpre.map Call.blockId).nodup hnodup, fun q hq => ?_⟩
    obtain ⟨i, hi, rfl⟩ := List.mem_map.mp (hpre.subset hq)
    rw [List.mem_range] at hi
    refine ⟨Nat.le_add_right _ _, 0, blockSize, by decide, Nat.le_refl _, ?_, fun _ _ _ => rfl⟩
    unfold blockSize at *
    show (offset / 0x1000 + i) * 0x1000 + 0x1000 ≤ finish
    omega

/-- The calls before one of a write are for different blocks, and all of their bytes are in its range. -/
theorem writeCalls_prefix (h : writeCalls offset count buffer = pre ++ c :: post) :
    (pre.map Call.blockId).Nodup ∧ ∀ q ∈ pre, Within (offset + count) q := by
  unfold writeCalls at h
  split at h
  · rw [eq_nil_of_singleton h]
    exact ⟨List.nodup_nil, fun q hq => absurd hq List.not_mem_nil⟩
  next hcross =>
  split at h
  · next hhead =>
    cases pre with
    | nil => exact ⟨List.nodup_nil, fun q hq => absurd hq List.not_mem_nil⟩
    | cons q pre =>
      obtain ⟨rfl, hrest⟩ := List.cons.inj h
      obtain ⟨hnodup, hwithin⟩ := restCalls_prefix (by unfold blockSize at *; omega) (by unfold blockSize at *; omega) hrest
      have hbefore : offset / blockSize < (offset + (blockSize - offset % blockSize)) / blockSize := by
        unfold blockSize at *
        omega
      refine ⟨?_, fun p hp => ?_⟩
      · rw [List.map_cons, List.nodup_cons]
        refine ⟨fun hmem => ?_, hnodup⟩
        obtain ⟨p, hp, he⟩ := List.mem_map.mp hmem
        have hle := (hwithin p hp).1
        have hid : p.blockId = offset / blockSize := he
        omega
      · rcases List.mem_cons.mp hp with rfl | hp
        · have hlt : offset % blockSize < blockSize := Nat.mod_lt _ (by decide)
          refine ⟨offset % blockSize, blockSize, hlt, Nat.le_refl _, ?_, fun blk i hi => ?_⟩
          · show offset / blockSize * blockSize + blockSize ≤ offset + count
            unfold blockSize at *
            omega
          · exact copy_outside _ _ (by omega)
        · exact (hwithin p hp).2
  · next hhead =>
    obtain ⟨hnodup, hwithin⟩ := restCalls_prefix (by unfold blockSize at *; omega) rfl h
    exact ⟨hnodup, fun q hq => (hwithin q hq).2⟩

end

/-! ## Writes that fail -/

/-- The heap serves the calls one after another. -/
def ServedAll (heap : Nat → Bool) : List Call → DataNode → Nat → Prop
  | [], _, _ => True
  | c :: calls, n, t => Served heap c.blockId 5 n.level (missing n.level n.data c.blockId) t ∧
      ∀ n' t', DataNode.getBlock heap n c.blockId c.use t = some (true, n', t') → ServedAll heap calls n' t'

/-- The call stays inside the blocks it asks for, and if it answers `DEVICE_ERROR`, the file is what it was. -/
def WriteKeeps (heap : Nat → Bool) (f : File) (offset count : Nat) (buffer : Nat → UInt8) (t : Nat) : Prop :=
  ∃ answer f' t', write heap f offset count buffer t = some (answer, f', t') ∧ answer ≠ .outOfBlock ∧
    (answer = .response (.error .deviceError) → Same f f')

/-- Either the range ends in the block it begins in, or at the end of a block, and every call is served.
Or the range ends in the file, and the heap denies a block, when those in front of it are in place. -/
def WriteOk (heap : Nat → Bool) (f : File) (offset count : Nat) (buffer : Nat → UInt8) (t : Nat) : Prop :=
  let finish := offset + clip offset count
  let calls := writeCalls offset (clip offset count) buffer
  (InOneBlock offset finish ∨ finish % blockSize = 0) ∧ ServedAll heap calls f.data t ∨
    finish ≤ f.size ∧ ∃ pre c post, calls = pre ++ c :: post ∧ (∀ q ∈ pre, InPlace f.data q) ∧
      Denied heap c.blockId 5 f.data.level (missing f.data.level f.data.data c.blockId) t

section
variable {heap : Nat → Bool} {f : File} {n n' : DataNode} {t t' : Nat}

theorem serve_servedAll_iff (calls : List Call) :
    (∃ n' t', serve heap calls n t = some (true, n', t')) ↔ ServedAll heap calls n t := by
  induction calls generalizing n t with
  | nil => exact iff_of_true ⟨n, t, rfl⟩ trivial
  | cons c calls ih =>
    have hserved := @tryBlock_served_iff heap c.use c.blockId t n 5
    rw [ServedAll, ← hserved]
    constructor
    · rintro ⟨n', t', h⟩
      rw [serve] at h
      obtain ⟨⟨ok, n₁, t₁⟩, hget, h⟩ := Option.bind_eq_some_iff.mp h
      cases ok with
      | false =>
        obtain ⟨hok, -⟩ := Prod.mk.inj (Option.some.inj h)
        cases hok
      | true =>
        refine ⟨⟨n₁, t₁, hget⟩, fun n₂ t₂ hget₂ => ?_⟩
        obtain ⟨-, hpair⟩ := Prod.mk.inj (Option.some.inj (hget.symm.trans hget₂))
        obtain ⟨rfl, rfl⟩ := Prod.mk.inj hpair
        exact ih.mp ⟨n', t', h⟩
    · rintro ⟨⟨n₁, t₁, hget⟩, hrest⟩
      obtain ⟨n', t', h⟩ := ih.mpr (hrest n₁ t₁ hget)
      refine ⟨n', t', ?_⟩
      rw [serve, show DataNode.getBlock heap n c.blockId c.use t = some (true, n₁, t₁) from hget]
      exact h

/-- A block that no read tells from what it was is in place. -/
theorem inPlace_of_same {finish : Nat} {c : Call} {f' : File} (hsame : Same f f') (hsize : f.size < 2 ^ 64)
    (hfinish : finish ≤ f.size) (hwithin : Within finish c)
    (hblock : f'.data.getWeakBlock c.blockId = some (c.use ((f.data.getWeakBlock c.blockId).getD zeros))) :
    InPlace f.data c := by
  obtain ⟨a, b, hab, hb, hend, houtside⟩ := hwithin
  have hbyte : ∀ i, a ≤ i → i < b → (f.data.getWeakBlock c.blockId).map (fun blk => blk i) =
      some (c.use ((f.data.getWeakBlock c.blockId).getD zeros) i) := by
    intro i ha hi
    have hpeek := hsame.peek (i := c.blockId * blockSize + i) (by omega) hsize
    have hdiv : (c.blockId * blockSize + i) / blockSize = c.blockId := by
      unfold blockSize at *
      omega
    have hmod : (c.blockId * blockSize + i) % blockSize = i := by
      unfold blockSize at *
      omega
    unfold peek at hpeek
    rw [hdiv, hmod, hblock] at hpeek
    exact hpeek.symm
  cases hold : f.data.getWeakBlock c.blockId with
  | none =>
    have hmissing := hbyte a (Nat.le_refl a) hab
    rw [hold] at hmissing
    cases hmissing
  | some blk =>
    refine ⟨blk, hold, funext fun i => ?_⟩
    by_cases hi : a ≤ i ∧ i < b
    · have hsome := hbyte i hi.1 hi.2
      rw [hold] at hsome
      exact (Option.some.inj hsome).symm
    · exact houtside blk i (by omega)

/-- A tree that is too deep serves no call. -/
theorem serve_deep {pre post : List Call} {c : Call} (h : 11 ≤ n.level) : serve heap (pre ++ c :: post) n t = none := by
  cases pre with
  | nil =>
    rw [List.nil_append, serve, DataNode.getBlock, tryBlock_divides h]
    rfl
  | cons q pre =>
    rw [List.cons_append, serve, DataNode.getBlock, tryBlock_divides h]
    rfl

theorem writeAnswer_error {offset count : Nat} : writeAnswer offset count ≠ .response (.error .deviceError) := by
  unfold writeAnswer
  split
  · exact fun h => by cases h
  split
  · exact fun h => by cases h
  · exact fun h => by cases h

theorem writeAnswer_outOfBlock {offset count : Nat} : writeAnswer offset count ≠ .outOfBlock ↔
    InOneBlock offset (offset + count) ∨ (offset + count) % blockSize = 0 := by
  unfold writeAnswer InOneBlock
  by_cases hone : offset / blockSize = (offset + count) / blockSize
  · rw [if_pos hone]
    exact iff_of_true (fun h => by cases h) (.inl hone)
  · rw [if_neg hone]
    by_cases hzero : (offset + count) % blockSize = 0
    · rw [if_neg (not_not_intro hzero)]
      exact iff_of_true (fun h => by cases h) (.inr hzero)
    · rw [if_pos hzero]
      exact iff_of_false (fun h => h rfl) fun h => h.elim hone hzero

end

/-- Over a heap that may refuse any allocation, a write stays inside its blocks, and leaves the file as
it was if it answers `DEVICE_ERROR`, exactly under `WriteOk`. -/
theorem write_keeps_iff {heap : Nat → Bool} {f : File} {offset count t : Nat} {buffer : Nat → UInt8}
    (hoffset : offset < 2 ^ 64) (hcount : count < 2 ^ 64) (hsize : f.size < 2 ^ 64) :
    WriteKeeps heap f offset count buffer t ↔ WriteOk heap f offset count buffer t := by
  have hwrite := @write_eq heap f offset count t buffer hoffset hcount
  unfold WriteKeeps WriteOk
  rw [hwrite]
  generalize clip offset count = k
  constructor
  · rintro ⟨answer, f', t', hrun, hstays, hkeep⟩
    obtain ⟨⟨ok, n', t₁⟩, hserve, hpair⟩ := Option.map_eq_some_iff.mp hrun
    obtain ⟨rfl, hfile⟩ := Prod.mk.inj hpair
    obtain ⟨rfl, rfl⟩ := Prod.mk.inj hfile
    cases ok with
    | true => exact .inl ⟨writeAnswer_outOfBlock.mp hstays, (serve_servedAll_iff _).mp ⟨n', t₁, hserve⟩⟩
    | false =>
      have hsame := hkeep rfl
      have hfinish : offset + k ≤ f.size := by
        have hmax : max f.size (offset + k) = f.size := hsame.1
        omega
      obtain ⟨pre, c, post, n₁, t₂, hcalls, hpre, hnull⟩ := serve_false hserve
      obtain ⟨hnodup, hwithin⟩ := writeCalls_prefix hcalls
      have hplace : ∀ q ∈ pre, InPlace f.data q := by
        intro q hq
        refine inPlace_of_same hsame hsize hfinish (hwithin q hq) ?_
        show n'.getWeakBlock q.blockId = _
        rw [(tryBlock_blocks hnull).2, if_neg fun h => Bool.false_ne_true h.1]
        exact (serve_blocks hnodup hpre).1 q hq
      have hl : f.data.level ≤ 10 := by
        apply Nat.le_of_not_lt
        intro hdeep
        rw [hcalls, serve_deep hdeep] at hserve
        cases hserve
      have hkept := @serve_inPlace heap f.data t pre [] hplace hl
      rw [List.append_nil, hpre] at hkept
      obtain ⟨-, hpair⟩ := Prod.mk.inj (Option.some.inj hkept)
      obtain ⟨rfl, rfl⟩ := Prod.mk.inj hpair
      exact .inr ⟨hfinish, pre, c, post, hcalls, hplace, (tryBlock_denied_iff 4).mp ⟨n', _, hnull⟩⟩
  · rintro (⟨hstays, hserved⟩ | ⟨hfinish, pre, c, post, hcalls, hplace, hdenied⟩)
    · obtain ⟨n', t', hserve⟩ := (serve_servedAll_iff _).mpr hserved
      rw [hserve]
      exact ⟨_, _, _, rfl, writeAnswer_outOfBlock.mpr hstays, fun h => absurd h writeAnswer_error⟩
    · obtain ⟨n', t', hnull⟩ := (@tryBlock_denied_iff heap c.use c.blockId t f.data 4).mpr hdenied
      have hserve : serve heap (writeCalls offset k buffer) f.data t = some (false, n', t') := by
        rw [hcalls, serve_inPlace hplace hdenied.level, serve,
          show DataNode.getBlock heap f.data c.blockId c.use t = some (false, n', t') from hnull]
        rfl
      rw [hserve]
      refine ⟨.response (.error .deviceError), ⟨n', max f.size (offset + k)⟩, t', rfl, ?_, fun _ => ?_⟩
      · exact fun h => by cases h
      · refine same_of_blocks (Nat.max_eq_left hfinish) fun i => ?_
        exact ((tryBlock_blocks hnull).2 i).trans (if_neg fun h => Bool.false_ne_true h.1)

/-- One byte into a block that is not there yet, of a file that ends behind it: the heap refuses the block and then
a new root, and the file is left as it was. -/
theorem write_keeps_refused : WriteKeeps (fun _ => false) ⟨DataNode.construct, blockSize⟩ 0 1 (fun _ => 7) 0 := by
  refine (write_keeps_iff (by decide) (by decide) (by decide)).mpr (.inr ⟨by decide, [], _, [], rfl, fun q hq => ?_, ?_⟩)
  · cases hq
  · exact .root (by decide) (.refused (by decide) (by decide) (fun i hi => absurd hi (Nat.not_lt_zero i)) rfl) (.inr rfl)

/-- One byte to a new file, and no memory: the answer is `DEVICE_ERROR`, and the file has one byte. -/
theorem write_fails_and_grows : ∃ f' t', write (fun _ => false) File.construct 0 1 (fun _ => 7) 0 =
    some (.response (.error .deviceError), f', t') ∧ f'.size = 1 ∧
      ¬ WriteKeeps (fun _ => false) File.construct 0 1 (fun _ => 7) 0 := by
  refine ⟨⟨DataNode.construct, 1⟩, 2, rfl, rfl, ?_⟩
  rintro ⟨answer, f', t', hrun, -, hkeep⟩
  obtain ⟨rfl, hpair⟩ := Prod.mk.inj (Option.some.inj hrun)
  obtain ⟨rfl, -⟩ := Prod.mk.inj hpair
  have hsize : (1 : Nat) = 0 := (hkeep rfl).1
  cases hsize

end BadLands.Fs.Npfs.Alloc
