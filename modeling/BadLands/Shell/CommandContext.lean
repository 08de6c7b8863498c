import BadLands.Core.Machine
import BadLands.Fs.VfsRefs
import Mathlib.Algebra.Group.Nat.Defs

/-!
# Where the shell is

`CommandContext` keeps the location of the shell twice: as the text of the prompt and as the node that
names are looked up in. `goto name` adds to the text what it looked up in the node; `goto ..` asks
`VFS::OpenParent` for the parent of the text and cuts the name that this found off the text.

A buffer is the memory from its first character on, an index too far is a write behind it. In each
command any lookup may fail (`Failures`), and the heap may refuse the larger buffer, which is a panic.
`filename` of `OpenParentDirectory` is not initialized, and `OpenParent` leaves it so when it refuses the
path: its length is then whatever it was.

`location_consistent_iff`: text and node agree along a run iff no step enters a third level
(`VFS::Open` cannot resolve it), or a path that is too long, or goes up when the lookup of the parent
fails, which cuts the text and leaves the node.
-/
namespace BadLands.Shell.CommandContext

open BadLands.Core.Machine
open BadLands.Fs (Status Response)
open BadLands.Fs.Vfs (Name RefEv DirectoryEntry FileTree Stored PathAt maxFilePath textAt pathText pathHead
  parentText resolve checkFilePath extractFileName)
open BadLands.Fs.VfsRefs (Finder)

/-! ## Buffers -/

abbrev Buffer := Nat → Char

/-- The characters `l` are written at `offset`. -/
def store (b : Buffer) (offset : Nat) (l : Name) : Buffer := fun i =>
  if offset ≤ i ∧ i < offset + l.length then l.getD (i - offset) '\x00' else b i

/-- The buffer at address 1, for the path functions. -/
def memory (b : Buffer) : Nat → Char := fun a => b (a - 1)

/-! ## The context -/

/-- mirrors kernel/src/services/shell/entry.cpp:51-58 -/
structure Context where
  displayedPath : Buffer
  displayedPathLength : Nat
  displayedPathCapacity : Nat
  currentDirectory : Nat

def defaultPathBufferSize : Nat := 256

/-- The path as an entry, without the terminator. -/
def Context.entry (ctx : Context) : DirectoryEntry := ⟨ctx.displayedPathLength - 1, 1⟩

/-- Which lookups fail, and how. -/
abbrev Failures := List RefEv → Nat → Name → Option Status

/-- The lookups in a tree, some of which fail. -/
def lookups (t : FileTree) (fails : Failures) : Finder := fun tr n name =>
  match fails tr n name with
  | some e => .error e
  | none => (Fs.Vfs.find t n name).1

/-- mirrors kernel/src/services/shell/entry.cpp:61-89 -/
def create (t : FileTree) (buffer : Option Buffer) (fails : Failures) : Option Context :=
  match buffer with
  | none => none
  | some buffer =>
    let displayedPath := store (store buffer 0 (List.replicate defaultPathBufferSize '\x00')) 0 ['/', '/']
    let root := store (fun _ => '\x00') 0 ['/', '/']
    match (Fs.VfsRefs.vfsOpen (lookups t fails) t.root (t.node t.root).removed (memory root) ⟨2, 1⟩).1 with
    | .error _ => none
    | .ok node => some ⟨displayedPath, 3, defaultPathBufferSize, node⟩

/-- The buffer with room for another name and a `/`, `none` when there is no memory for it.
mirrors kernel/src/services/shell/entry.cpp:104-119 -/
def Context.grow (ctx : Context) (addedPathLength : Nat) (buffer : Option Buffer) : Option Context :=
  if ctx.displayedPathLength + addedPathLength + 1 > ctx.displayedPathCapacity then
    let newCapacity := ctx.displayedPathCapacity + addedPathLength * 5
    buffer.map fun newBuffer =>
      { ctx with
        displayedPath := store (store newBuffer 0 (List.replicate newCapacity '\x00')) 0
          (textAt ctx.displayedPath 0 ctx.displayedPathLength)
        displayedPathCapacity := newCapacity }
  else some ctx

/-- mirrors kernel/src/services/shell/entry.cpp:121-125 -/
def Context.append (ctx : Context) (addedPath : Name) : Context :=
  let length := ctx.displayedPathLength + (addedPath.length + 1)
  { ctx with
    displayedPath := store (store (store ctx.displayedPath (ctx.displayedPathLength - 1) addedPath)
      (length - 2) ['/']) (length - 1) ['\x00']
    displayedPathLength := length }

/-- mirrors kernel/src/services/shell/entry.cpp:99-127 -/
def Context.openSubdirectory (ctx : Context) (newDirectory : Nat) (addedPath : Name) (buffer : Option Buffer) :
    Option Context :=
  if addedPath.length > 0 then
    let entered : Context := { ctx with currentDirectory := newDirectory }
    (entered.grow addedPath.length buffer).map fun ctx => ctx.append addedPath
  else some ctx

/-- `filename` after `OpenParent`, which sets it even if a lookup then fails.
mirrors kernel/src/fs/VFS.cpp:93-104 -/
def filenameAfter (mem : Nat → Char) (p filename : DirectoryEntry) : DirectoryEntry :=
  if !checkFilePath mem p then filename
  else match extractFileName mem p with
    | .error _ => filename
    | .ok extracted => extracted

/-- `size_t` -/
def sub (a b : Nat) : Nat := (a + (2 ^ 64 - b % 2 ^ 64)) % 2 ^ 64

/-- The last name is cut off, unless there is none.
mirrors kernel/src/services/shell/entry.cpp:145-149 -/
def Context.trim (ctx : Context) (filename : DirectoryEntry) : Context :=
  if filename.nameLength > 0 then
    let length := sub ctx.displayedPathLength (filename.nameLength + 1)
    { ctx with
      displayedPath := store ctx.displayedPath (sub length 1) ['\x00']
      displayedPathLength := length }
  else ctx

/-- The node is left as it is when a lookup fails, the text is not.
mirrors kernel/src/services/shell/entry.cpp:129-151 -/
def Context.openParentDirectory (t : FileTree) (ctx : Context) (fails : Failures) (filename : DirectoryEntry) :
    Context :=
  let mem := memory ctx.displayedPath
  let parent := (Fs.VfsRefs.openParent (lookups t fails) t.root (t.node t.root).removed mem ctx.entry).1
  let ctx' := match parent with
    | .error _ => ctx
    | .ok (node, _) => { ctx with currentDirectory := node }
  ctx'.trim (filenameAfter mem ctx.entry filename)

/-! ## Commands -/

/-- A line of the input buffer, which takes every character but this one.
mirrors kernel/src/services/shell/entry.cpp:46-49,288-291 -/
structure CommandString where
  command : Name
  nul_free : '\x00' ∉ command

inductive Goto where
  | stay
  | parent
  | child (path : Name)
  deriving DecidableEq, Repr

/-- What a line does to the location. `clear`, `list` and every other line leave it.
mirrors kernel/src/services/shell/entry.cpp:363-380 -/
def parseGoto (command : Name) : Goto :=
  if command.length ≥ 4 ∧ command.take 4 = ['g', 'o', 't', 'o'] then
    if command.length ≤ 5 then .stay
    else if command.getD 4 '\x00' ≠ ' ' then .stay
    else
      let path := command.drop 5
      if path = ['.'] then .stay
      else if path = ['.', '.'] then .parent
      else .child path
  else .stay

/-- A line, and what the rest of the kernel does while it is executed: the lookups that fail, the buffer
that the heap has, what is left of an earlier call where `filename` is. -/
structure Act where
  line : CommandString
  fails : Failures
  buffer : Option Buffer
  filename : DirectoryEntry

/-- `none`: a panic.
mirrors kernel/src/services/shell/entry.cpp:319-415 -/
def onExecute (t : FileTree) (ctx : Context) (a : Act) : Option Context :=
  match parseGoto a.line.command with
  | .stay => some ctx
  | .parent => some (ctx.openParentDirectory t a.fails a.filename)
  | .child path =>
    match lookups t a.fails [] ctx.currentDirectory path with
    | .error _ => some ctx
    | .ok node =>
      if (t.node node).entries.isSome then ctx.openSubdirectory node path a.buffer else some ctx

/-! ## What has to hold -/

/-- The text of the prompt. -/
def Context.path (ctx : Context) : Name := textAt ctx.displayedPath 0 (ctx.displayedPathLength - 1)

/-- A terminated string within its buffer, and the path of the current directory. -/
structure Consistent (t : FileTree) (ctx : Context) : Prop where
  positive : 0 < ctx.displayedPathLength
  terminated : ctx.displayedPath (ctx.displayedPathLength - 1) = '\x00'
  nul_free : '\x00' ∉ ctx.path
  within : ctx.displayedPathLength ≤ ctx.displayedPathCapacity
  resolves : (Fs.Vfs.vfsOpen t (memory ctx.displayedPath) ctx.entry).1 = .ok ctx.currentDirectory

/-- The levels below the root. -/
def Context.depth (ctx : Context) : Nat := ctx.path.count '/' - 2

/-- The name of the first level. -/
def Context.first (ctx : Context) : Name := (ctx.path.drop 2).takeWhile (· ≠ '/')

/-- A directory is entered from the root or the first level, and its path is not too long. From the second
level up, the lookup of the first level does not fail (or has the current directory for an answer). -/
def Keeps (t : FileTree) (ctx : Context) (a : Act) : Prop :=
  match parseGoto a.line.command with
  | .stay => True
  | .parent => ctx.depth = 2 → a.fails [.opened t.root] t.root ctx.first = none ∨
      (Fs.Vfs.find t t.root ctx.first).1 = .ok ctx.currentDirectory
  | .child path =>
    match lookups t a.fails [] ctx.currentDirectory path with
    | .error _ => True
    | .ok node => (t.node node).entries.isSome = true →
        ctx.depth ≤ 1 ∧ ctx.displayedPathLength + path.length ≤ maxFilePath

/-! ## Characters in a buffer -/

section
variable {b : Buffer} {a offset : Nat} {l m : Name}

theorem store_outside {i : Nat} (h : i < offset ∨ offset + l.length ≤ i) : store b offset l i = b i := by
  unfold store
  rw [if_neg (by omega)]

theorem stored_of_get : ∀ {a : Nat} {l : Name}, (∀ (i : Nat) (h : i < l.length), b (a + i) = l[i]) → Stored b a l
  | _, [], _ => trivial
  | a, c :: l, h => by
    refine ⟨h 0 (by simp), stored_of_get fun i hi => ?_⟩
    have := h (i + 1) (by simpa using hi)
    rw [show a + 1 + i = a + (i + 1) by omega, this, List.getElem_cons_succ]

theorem stored_store (b : Buffer) (offset : Nat) (l : Name) : Stored (store b offset l) offset l := by
  refine stored_of_get fun i hi => ?_
  unfold store
  rw [if_pos ⟨by omega, by omega⟩, Nat.add_sub_cancel_left]
  simp [hi]

theorem store_cleared (b : Buffer) {n i : Nat} (h : i < n) : store b 0 (List.replicate n '\x00') i = '\x00' := by
  unfold store
  rw [List.length_replicate, if_pos (by omega)]
  simp [h]

/-- What stands before is not written over. -/
theorem stored_beside (h : Stored b a m) (hout : a + m.length ≤ offset) :
    Stored (store b offset l) a m := by
  refine stored_of_get fun i hi => ?_
  rw [store_outside (by omega)]
  exact Fs.Vfs.stored_get i h hi

theorem stored_memory (b : Buffer) : ∀ (a : Nat) (l : Name), Stored (memory b) (a + 1) l ↔ Stored b a l
  | _, [] => Iff.rfl
  | a, _ :: l => and_congr Iff.rfl (stored_memory b (a + 1) l)

end

/-! ## The text of a location -/

/-- `//`, and every name with a `/` behind it. -/
def locationText (comps : List Name) : Name := pathHead false ++ parentText comps

/-- The names of a location, as they come from the input buffer and out of a tree. -/
def Names (comps : List Name) : Prop := ∀ c ∈ comps, '/' ∉ c ∧ c ≠ [] ∧ '\x00' ∉ c

/-- The buffer holds the text of the location. -/
structure Shown (comps : List Name) (ctx : Context) : Prop where
  stored : Stored ctx.displayedPath 0 (locationText comps ++ ['\x00'])
  length_eq : ctx.displayedPathLength = (locationText comps).length + 1
  within : ctx.displayedPathLength ≤ ctx.displayedPathCapacity
  names : Names comps

section
variable {comps init : List Name} {name last : Name} {ctx ctx' : Context}

theorem locationText_concat : locationText (init ++ [last]) = locationText init ++ (last ++ ['/']) := by
  simp [locationText, parentText]

theorem locationText_slash : pathText false (init ++ [last]) true = locationText (init ++ [last]) := by
  rw [Fs.Vfs.pathText_split, locationText_concat]
  rfl

theorem count_parentText : ∀ {comps : List Name}, Names comps → (parentText comps).count '/' = comps.length
  | [], _ => rfl
  | c :: comps, h => by
    have ih := count_parentText fun d hd => h d (List.mem_cons_of_mem _ hd)
    have hc : c.count '/' = 0 := List.count_eq_zero.mpr (h c List.mem_cons_self).1
    have hsplit : parentText (c :: comps) = (c ++ ['/']) ++ parentText comps := rfl
    rw [hsplit, List.count_append, List.count_append, hc, ih, List.count_singleton_self, List.length_cons]
    omega

theorem nul_free_locationText (h : Names comps) : '\x00' ∉ locationText comps := by
  unfold locationText parentText
  rw [List.mem_append, List.mem_flatMap]
  rintro (hx | ⟨c, hc, hx⟩)
  · revert hx
    decide
  · rcases List.mem_append.mp hx with hx | hx
    · exact (h c hc).2.2 hx
    · revert hx
      decide

theorem Names.concat (h : Names comps) (hname : '/' ∉ name ∧ name ≠ [] ∧ '\x00' ∉ name) : Names (comps ++ [name]) := by
  intro c hc
  rcases List.mem_append.mp hc with hc | hc
  · exact h c hc
  · rw [List.mem_singleton.mp hc]
    exact hname

theorem Names.dropLast (h : Names (init ++ [last])) : Names init := fun c hc => h c (List.mem_append_left _ hc)

theorem Shown.path_eq (h : Shown comps ctx) : ctx.path = locationText comps := by
  have hs := ((Fs.Vfs.stored_append _ _ _ _).mp h.stored).1
  unfold Context.path
  rw [h.length_eq, Nat.add_sub_cancel]
  exact Fs.Vfs.textAt_stored hs

theorem Shown.depth_eq (h : Shown comps ctx) : ctx.depth = comps.length := by
  unfold Context.depth
  rw [h.path_eq, locationText, List.count_append, count_parentText h.names]
  exact Nat.add_sub_cancel_left 2 _

theorem Shown.first_eq {rest : List Name} (h : Shown (name :: rest) ctx) : ctx.first = name := by
  have hne : ∀ x ∈ name, decide (x ≠ '/') = true := fun x hx =>
    decide_eq_true fun he => (h.names name List.mem_cons_self).1 (he ▸ hx)
  unfold Context.first
  rw [h.path_eq]
  have hdrop : (locationText (name :: rest)).drop 2 = name ++ ('/' :: parentText rest) := by
    simp [locationText, pathHead, parentText]
  rw [hdrop, List.takeWhile_append_of_pos hne]
  simp

theorem Shown.terminated (h : Shown comps ctx) : ctx.displayedPath (ctx.displayedPathLength - 1) = '\x00' := by
  have hs := ((Fs.Vfs.stored_append _ _ _ _).mp h.stored).2.1
  rw [h.length_eq, Nat.add_sub_cancel]
  rwa [Nat.zero_add] at hs

/-- The path functions see it as a well-formed path with a `/` behind it. -/
theorem Shown.pathAt (h : Shown (init ++ [last]) ctx) (hfits : ctx.displayedPathLength ≤ maxFilePath + 1) :
    PathAt (memory ctx.displayedPath) false init last true ctx.entry where
  name_pos := Nat.one_ne_zero
  length_eq := by
    rw [locationText_slash, Context.entry, h.length_eq]
    rfl
  length_le := by
    unfold Context.entry
    dsimp only
    omega
  stored := by
    rw [locationText_slash]
    exact (stored_memory _ _ _).mpr ((Fs.Vfs.stored_append _ _ _ _).mp h.stored).1
  slash_free := fun c hc => (h.names c hc).1
  non_empty := fun c hc => (h.names c hc).2.1

/-! ## Entering a directory -/

theorem Shown.grow (h : Shown comps ctx) {n : Nat} {buffer : Option Buffer} (hn : 0 < n)
    (hg : ctx.grow n buffer = some ctx') :
    Shown comps ctx' ∧ ctx'.displayedPathLength + n + 1 ≤ ctx'.displayedPathCapacity ∧
      ctx'.displayedPathLength = ctx.displayedPathLength ∧ ctx'.currentDirectory = ctx.currentDirectory := by
  have hwithin := h.within
  unfold Context.grow at hg
  split at hg
  · obtain ⟨newBuffer, -, rfl⟩ := Option.map_eq_some_iff.mp hg
    refine ⟨⟨?_, h.length_eq, ?_, h.names⟩, ?_, rfl, rfl⟩
    · have htext : textAt ctx.displayedPath 0 ctx.displayedPathLength = locationText comps ++ ['\x00'] := by
        rw [h.length_eq, ← List.length_singleton (a := '\x00'), ← List.length_append]
        exact Fs.Vfs.textAt_stored h.stored
      dsimp only
      rw [htext]
      exact stored_store _ _ _
    · dsimp only
      omega
    · dsimp only
      omega
  · cases hg
    exact ⟨h, by omega, rfl, rfl⟩

theorem Shown.append (h : Shown comps ctx) (hroom : ctx.displayedPathLength + name.length + 1 ≤ ctx.displayedPathCapacity)
    (hname : '/' ∉ name ∧ name ≠ [] ∧ '\x00' ∉ name) : Shown (comps ++ [name]) (ctx.append name) := by
  have hlen := h.length_eq
  have htotal : (locationText (comps ++ [name])).length = (locationText comps).length + name.length + 1 := by
    rw [locationText_concat, List.length_append, List.length_append, List.length_singleton, Nat.add_assoc]
  have hold := ((Fs.Vfs.stored_append _ _ _ _).mp h.stored).1
  refine ⟨?_, ?_, ?_, h.names.concat hname⟩
  · -- the name over the old terminator, the `/`, the new terminator
    rw [locationText_concat]
    simp only [Fs.Vfs.stored_append, List.length_append, Nat.zero_add, List.length_singleton]
    unfold Context.append
    dsimp only
    rw [hlen, show (locationText comps).length + 1 + (name.length + 1) - 2 = (locationText comps).length + name.length by omega,
      show (locationText comps).length + 1 + (name.length + 1) - 1 = (locationText comps).length + (name.length + 1) by omega,
      Nat.add_sub_cancel]
    refine ⟨⟨?_, ?_, ?_⟩, stored_store _ _ _⟩
    · exact stored_beside (stored_beside (stored_beside hold (by omega)) (by omega)) (by omega)
    · exact stored_beside (stored_beside (stored_store _ _ _) (by omega)) (by omega)
    · refine stored_beside (stored_store _ _ _) ?_
      rw [List.length_singleton]
      omega
  · unfold Context.append
    dsimp only
    omega
  · unfold Context.append
    dsimp only
    omega

theorem Shown.openSubdirectory (h : Shown comps ctx) {node : Nat} {buffer : Option Buffer}
    (hname : '/' ∉ name ∧ name ≠ [] ∧ '\x00' ∉ name) (ho : ctx.openSubdirectory node name buffer = some ctx') :
    Shown (comps ++ [name]) ctx' ∧ ctx'.currentDirectory = node ∧
      ctx'.displayedPathLength = ctx.displayedPathLength + name.length + 1 := by
  have hpos : 0 < name.length := List.length_pos_iff.mpr hname.2.1
  unfold Context.openSubdirectory at ho
  rw [if_pos hpos] at ho
  obtain ⟨grown, hgrow, rfl⟩ := Option.map_eq_some_iff.mp ho
  have hentered : Shown comps { ctx with currentDirectory := node } := ⟨h.stored, h.length_eq, h.within, h.names⟩
  obtain ⟨hshown, hroom, hlength, hnode⟩ := hentered.grow hpos hgrow
  refine ⟨hshown.append hroom hname, hnode, ?_⟩
  unfold Context.append
  dsimp only at hlength ⊢
  omega

/-! ## Back to the parent -/

theorem sub_eq {a b : Nat} (ha : a < 2 ^ 64) (hb : b ≤ a) : sub a b = a - b := by
  unfold sub
  omega

theorem Shown.trim (h : Shown (init ++ [last]) ctx) (hfits : ctx.displayedPathLength ≤ maxFilePath + 1) (q : Nat) :
    Shown init (ctx.trim ⟨last.length, q⟩) ∧ (ctx.trim ⟨last.length, q⟩).currentDirectory = ctx.currentDirectory := by
  have hlast : 0 < last.length := List.length_pos_iff.mpr (h.names last (by simp)).2.1
  have hlen := h.length_eq
  have hwithin := h.within
  rw [locationText_concat, List.length_append, List.length_append, List.length_singleton] at hlen
  unfold maxFilePath at hfits
  have hcut : sub ctx.displayedPathLength (last.length + 1) = (locationText init).length + 1 := by
    rw [sub_eq (by omega) (by omega)]
    omega
  have hend : sub ((locationText init).length + 1) 1 = (locationText init).length :=
    sub_eq (by omega) (by omega)
  unfold Context.trim
  rw [if_pos hlast]
  dsimp only
  rw [hcut, hend]
  refine ⟨⟨?_, rfl, ?_, h.names.dropLast⟩, rfl⟩
  · have hstored := h.stored
    rw [locationText_concat] at hstored
    simp only [Fs.Vfs.stored_append] at hstored
    refine (Fs.Vfs.stored_append _ _ _ _).mpr ⟨stored_beside hstored.1.1 (by omega), ?_⟩
    rw [Nat.zero_add]
    exact stored_store _ _ _
  · dsimp only
    omega

end

/-! ## One command -/

/-- At most two levels below the root, and the node is the one that the names lead to. -/
structure Located (t : FileTree) (comps : List Name) (ctx : Context) : Prop where
  shown : Shown comps ctx
  fits : ctx.displayedPathLength ≤ maxFilePath + 1
  depth_le : comps.length ≤ 2
  resolves : resolve t t.root comps = .ok ctx.currentDirectory

section
variable {t : FileTree} {comps : List Name} {ctx ctx' : Context} {a : Act}

theorem Shown.root (h : Shown [] ctx) : ctx.entry = ⟨2, 1⟩ ∧ Stored (memory ctx.displayedPath) 1 ['/', '/'] := by
  refine ⟨?_, (stored_memory _ _ _).mpr ((Fs.Vfs.stored_append _ _ _ _).mp h.stored).1⟩
  unfold Context.entry
  rw [h.length_eq]
  rfl

theorem vfsOpen_root {mem : Nat → Char} (h : Stored mem 1 ['/', '/']) : (Fs.Vfs.vfsOpen t mem ⟨2, 1⟩).1 = .ok t.root := by
  rw [← Fs.VfsRefs.open_tree, t.root_live]
  unfold Fs.VfsRefs.vfsOpen
  rw [Fs.VfsRefs.openParent_root h]
  rfl

/-- `VFS::Open` finds what the names lead to, up to two of them. -/
theorem Shown.vfsOpen_short (h : Shown comps ctx) (hfits : ctx.displayedPathLength ≤ maxFilePath + 1)
    (hshort : comps.length ≤ 2) :
    (Fs.Vfs.vfsOpen t (memory ctx.displayedPath) ctx.entry).1 = resolve t t.root comps := by
  rcases List.eq_nil_or_concat comps with rfl | ⟨init, last, rfl⟩
  · obtain ⟨hentry, hstored⟩ := h.root
    rw [hentry]
    exact vfsOpen_root hstored
  · rw [List.concat_eq_append] at h hshort ⊢
    rw [List.length_append, List.length_singleton] at hshort
    exact (h.pathAt hfits).open_short (by omega)

theorem Located.consistent (h : Located t comps ctx) : Consistent t ctx where
  positive := by
    rw [h.shown.length_eq]
    exact Nat.succ_pos _
  terminated := h.shown.terminated
  nul_free := by
    rw [h.shown.path_eq]
    exact nul_free_locationText h.shown.names
  within := h.shown.within
  resolves := (h.shown.vfsOpen_short h.fits h.depth_le).trans h.resolves

theorem stored_root {b : Buffer} (h : b 2 = '\x00') : Stored (store b 0 ['/', '/']) 0 (locationText [] ++ ['\x00']) := by
  have hend : store b 0 ['/', '/'] 2 = '\x00' := by
    rw [store_outside (by decide)]
    exact h
  exact (Fs.Vfs.stored_append _ _ _ _).mpr ⟨stored_store _ _ _, hend, trivial⟩

theorem create_located {buffer : Option Buffer} {fails : Failures} (h : create t buffer fails = some ctx) :
    Located t [] ctx := by
  have hroot : Stored (memory (store (fun _ => '\x00') 0 ['/', '/'])) 1 ['/', '/'] :=
    (stored_memory _ _ _).mpr (stored_store _ _ _)
  have hopen : (Fs.VfsRefs.vfsOpen (lookups t fails) t.root (t.node t.root).removed
      (memory (store (fun _ => '\x00') 0 ['/', '/'])) ⟨2, 1⟩).1 = .ok t.root := by
    unfold Fs.VfsRefs.vfsOpen
    rw [t.root_live, Fs.VfsRefs.openParent_root hroot]
    rfl
  unfold create at h
  cases buffer with
  | none => cases h
  | some buffer =>
    dsimp only at h
    rw [hopen] at h
    cases h
    refine ⟨⟨stored_root ?_, rfl, ?_, fun c hc => by cases hc⟩, ?_, Nat.zero_le _, rfl⟩
    · exact store_cleared buffer (show 2 < defaultPathBufferSize by decide)
    · exact show 3 ≤ 256 by decide
    · exact show 3 ≤ 4096 + 1 by decide

theorem resolve_concat (t : FileTree) (name : Name) : ∀ (comps : List Name) (n : Nat),
    resolve t n (comps ++ [name]) = (resolve t n comps).bind fun m => (Fs.Vfs.find t m name).1
  | [], n => Fs.Vfs.resolve_single t n name
  | c :: comps, n => by
    rw [List.cons_append, Fs.Vfs.resolve_cons, Fs.Vfs.resolve_cons]
    cases (Fs.Vfs.find t n c).1 with
    | error e => rfl
    | ok m => exact resolve_concat t name comps m

/-- A name that is found is not empty and has no `/`. -/
theorem find_name {n m : Nat} {name : Name} (h : (Fs.Vfs.find t n name).1 = .ok m) : '/' ∉ name ∧ name ≠ [] := by
  unfold Fs.Vfs.find at h
  cases hentries : (t.node n).entries with
  | none =>
    rw [hentries] at h
    cases h
  | some es =>
    rw [hentries] at h
    dsimp only at h
    unfold Fs.Vfs.findEntry at h
    by_cases hlen : name.length = 0
    · rw [if_pos hlen] at h
      cases h
    · rw [if_neg hlen] at h
      refine ⟨?_, fun hnil => hlen (hnil ▸ rfl)⟩
      cases hfound : es.find? fun e => e.1 == name with
      | none =>
        rw [hfound] at h
        cases h
      | some e =>
        have hname : e.1 = name := by simpa using List.find?_some hfound
        exact hname ▸ t.slash_free n es hentries e (List.mem_of_find?_eq_some hfound)

theorem lookups_ok {fails : Failures} {tr : List RefEv} {n m : Nat} {name : Name}
    (h : lookups t fails tr n name = .ok m) : (Fs.Vfs.find t n name).1 = .ok m := by
  unfold lookups at h
  split at h
  · cases h
  · exact h

theorem mem_of_parseGoto {command path : Name} (h : parseGoto command = .child path) {x : Char} (hx : x ∈ path) :
    x ∈ command := by
  unfold parseGoto at h
  split at h
  · split at h
    · cases h
    · split at h
      · cases h
      · dsimp only at h
        split at h
        · cases h
        · split at h
          · cases h
          · cases h
            exact List.mem_of_mem_drop hx
  · cases h

/-- The text is cut whatever the lookups answer. -/
theorem Shown.openParentDirectory {init : List Name} {last : Name} (h : Shown (init ++ [last]) ctx)
    (hfits : ctx.displayedPathLength ≤ maxFilePath + 1) (fails : Failures) (filename : DirectoryEntry) :
    Shown init (ctx.openParentDirectory t fails filename) ∧
      (ctx.openParentDirectory t fails filename).currentDirectory =
        match (Fs.VfsRefs.openParent (lookups t fails) t.root false (memory ctx.displayedPath) ctx.entry).1 with
        | .error _ => ctx.currentDirectory
        | .ok (node, _) => node := by
  have hpath := h.pathAt hfits
  have hfilename : filenameAfter (memory ctx.displayedPath) ctx.entry filename =
      ⟨last.length, ctx.entry.name + (pathHead false ++ parentText init).length⟩ := by
    unfold filenameAfter
    rw [hpath.check, hpath.extract]
    rfl
  unfold Context.openParentDirectory
  dsimp only
  rw [hfilename, t.root_live]
  split
  · exact h.trim hfits _
  · rename_i node _ _
    have hmoved : Shown (init ++ [last]) { ctx with currentDirectory := node } :=
      ⟨h.stored, h.length_eq, h.within, h.names⟩
    exact hmoved.trim hfits _

theorem Shown.shorter {init : List Name} {last : Name} (h : Shown (init ++ [last]) ctx) (h' : Shown init ctx')
    (hfits : ctx.displayedPathLength ≤ maxFilePath + 1) : ctx'.displayedPathLength ≤ maxFilePath + 1 := by
  have hlen := h.length_eq
  have hlen' := h'.length_eq
  rw [locationText_concat, List.length_append] at hlen
  omega

/-- At the root nothing changes. -/
theorem Located.parent_root (h : Located t [] ctx) (fails : Failures) (filename : DirectoryEntry) :
    Located t [] (ctx.openParentDirectory t fails filename) := by
  obtain ⟨hentry, hstored⟩ := h.shown.root
  obtain ⟨hcheck, hextract⟩ := Fs.VfsRefs.extract_root hstored
  have hnode : ctx.currentDirectory = t.root := (Except.ok.inj h.resolves).symm
  have hsame : ctx.openParentDirectory t fails filename = ctx := by
    unfold Context.openParentDirectory filenameAfter
    dsimp only
    rw [hentry, hcheck, hextract, t.root_live, Fs.VfsRefs.openParent_root hstored]
    dsimp only
    rw [← hnode]
    rfl
  rw [hsame]
  exact h

/-- From the first level to the root, without a lookup. -/
theorem Located.parent_first {c : Name} (h : Located t [c] ctx) (fails : Failures) (filename : DirectoryEntry) :
    Located t [] (ctx.openParentDirectory t fails filename) := by
  have hshown : Shown ([] ++ [c]) ctx := h.shown
  obtain ⟨hup, hnode⟩ := hshown.openParentDirectory (t := t) h.fits fails filename
  rw [Fs.VfsRefs.openParent_first (hshown.pathAt h.fits)] at hnode
  exact ⟨hup, hshown.shorter hup h.fits, Nat.zero_le _, congrArg Except.ok hnode.symm⟩

/-- From the second level, the node follows the text when the lookup does not fail. -/
theorem Located.parent_second {c d : Name} (h : Located t [c, d] ctx) (fails : Failures) (filename : DirectoryEntry) :
    ∃ m, (Fs.Vfs.find t t.root c).1 = .ok m ∧ Shown [c] (ctx.openParentDirectory t fails filename) ∧
      (ctx.openParentDirectory t fails filename).displayedPathLength ≤ maxFilePath + 1 ∧
      (ctx.openParentDirectory t fails filename).currentDirectory =
        if fails [.opened t.root] t.root c = none then m else ctx.currentDirectory := by
  have hshown : Shown ([c] ++ [d]) ctx := h.shown
  obtain ⟨hup, hnode⟩ := hshown.openParentDirectory (t := t) h.fits fails filename
  rw [Fs.VfsRefs.openParent_second (hshown.pathAt h.fits)] at hnode
  have hresolves := h.resolves
  rw [Fs.Vfs.resolve_cons] at hresolves
  cases hfind : (Fs.Vfs.find t t.root c).1 with
  | error e =>
    rw [hfind] at hresolves
    cases hresolves
  | ok m =>
    refine ⟨m, rfl, hup, hshown.shorter hup h.fits, ?_⟩
    unfold lookups at hnode
    rw [hfind] at hnode
    cases hfails : fails [.opened t.root] t.root c with
    | none =>
      rw [hfails] at hnode
      exact hnode
    | some e =>
      rw [hfails] at hnode
      exact hnode

/-- A directory is entered at any level. -/
theorem Located.child (h : Located t comps ctx) {path : Name} {node : Nat} (hgoto : parseGoto a.line.command = .child path)
    (hlookup : lookups t a.fails [] ctx.currentDirectory path = .ok node)
    (hopen : ctx.openSubdirectory node path a.buffer = some ctx') :
    Shown (comps ++ [path]) ctx' ∧ resolve t t.root (comps ++ [path]) = .ok ctx'.currentDirectory ∧
      ctx'.displayedPathLength = ctx.displayedPathLength + path.length + 1 := by
  have hfind := lookups_ok hlookup
  obtain ⟨hslash, hempty⟩ := find_name hfind
  have hnul : '\x00' ∉ path := fun hx => a.line.nul_free (mem_of_parseGoto hgoto hx)
  obtain ⟨hshown, hnode, hlength⟩ := h.shown.openSubdirectory ⟨hslash, hempty, hnul⟩ hopen
  refine ⟨hshown, ?_, hlength⟩
  rw [resolve_concat, h.resolves, hnode]
  exact hfind

/-- What one command does, from a consistent location. -/
theorem step_located (h : Located t comps ctx) (hk : Keeps t ctx a) (hs : onExecute t ctx a = some ctx') :
    ∃ comps', Located t comps' ctx' := by
  unfold onExecute at hs
  unfold Keeps at hk
  cases hgoto : parseGoto a.line.command with
  | stay =>
    rw [hgoto] at hs
    cases hs
    exact ⟨comps, h⟩
  | parent =>
    rw [hgoto] at hs hk
    cases hs
    match comps, h with
    | [], h => exact ⟨[], h.parent_root _ _⟩
    | [c], h => exact ⟨[], h.parent_first _ _⟩
    | [c, d], h =>
      obtain ⟨m, hfind, hshown, hfits, hnode⟩ := h.parent_second a.fails a.filename
      refine ⟨[c], hshown, hfits, by simp, ?_⟩
      rw [Fs.Vfs.resolve_single, hfind, hnode]
      have hkeeps := hk h.shown.depth_eq
      rw [h.shown.first_eq, hfind] at hkeeps
      split
      · rfl
      · rename_i hfails
        exact hkeeps.resolve_left hfails
    | _ :: _ :: _ :: _, h => exact absurd h.depth_le (by simp)
  | child path =>
    rw [hgoto] at hs hk
    dsimp only at hs hk
    cases hlookup : lookups t a.fails [] ctx.currentDirectory path with
    | error e =>
      rw [hlookup] at hs
      cases hs
      exact ⟨comps, h⟩
    | ok node =>
      rw [hlookup] at hs hk
      dsimp only at hs hk
      split at hs
      · rename_i hdirectory
        obtain ⟨hdepth, hlong⟩ := hk hdirectory
        rw [h.shown.depth_eq] at hdepth
        obtain ⟨hshown, hresolves, hlength⟩ := h.child hgoto hlookup hs
        refine ⟨comps ++ [path], hshown, by omega, ?_, hresolves⟩
        rw [List.length_append, List.length_singleton]
        omega
      · cases hs
        exact ⟨comps, h⟩

/-- A path that is too long is refused. -/
theorem vfsOpen_long {mem : Nat → Char} {p : DirectoryEntry} (h : maxFilePath < p.nameLength) :
    (Fs.Vfs.vfsOpen t mem p).1 = .error .invalidParameter := by
  have hcheck : checkFilePath mem p = false := by simp [checkFilePath, h]
  unfold Fs.Vfs.vfsOpen Fs.Vfs.openParent
  rw [hcheck]
  rfl

/-- A third level does not resolve. -/
theorem Shown.vfsOpen_third {c d name : Name} (h : Shown ([c, d] ++ [name]) ctx')
    (hfits : ctx'.displayedPathLength ≤ maxFilePath + 1) {m : Nat} (hfind : (Fs.Vfs.find t t.root c).1 = .ok m) (n : Nat) :
    (Fs.Vfs.vfsOpen t (memory ctx'.displayedPath) ctx'.entry).1 ≠ .ok n := by
  rw [(h.pathAt hfits).open_long (t := t) rfl hfind]
  simp

/-- The other commands part the text from the node. -/
theorem step_parted (h : Located t comps ctx) (hk : ¬ Keeps t ctx a) (hs : onExecute t ctx a = some ctx') :
    ¬ Consistent t ctx' := by
  intro hconsistent
  have hresolved := hconsistent.resolves
  unfold onExecute at hs
  unfold Keeps at hk
  cases hgoto : parseGoto a.line.command with
  | stay =>
    rw [hgoto] at hk
    exact hk trivial
  | parent =>
    rw [hgoto] at hs hk
    cases hs
    obtain ⟨hdepth, hlookup⟩ := Classical.not_imp.mp hk
    rw [h.shown.depth_eq] at hdepth
    match comps, h with
    | [], _ => cases hdepth
    | [_], _ => cases hdepth
    | [c, d], h =>
      obtain ⟨m, hfind, hshown, hfits, hnode⟩ := h.parent_second a.fails a.filename
      rw [h.shown.first_eq, hfind] at hlookup
      obtain ⟨hfails, hother⟩ := not_or.mp hlookup
      -- the text leads to the first level, the node is still the one on the second
      rw [hshown.vfsOpen_short hfits (by simp), Fs.Vfs.resolve_single, hfind, hnode, if_neg hfails] at hresolved
      exact hother hresolved
    | _ :: _ :: _ :: _, h => exact absurd h.depth_le (by simp)
  | child path =>
    rw [hgoto] at hs hk
    dsimp only at hs hk
    cases hlookup : lookups t a.fails [] ctx.currentDirectory path with
    | error e =>
      rw [hlookup] at hk
      exact hk trivial
    | ok node =>
      rw [hlookup] at hs hk
      dsimp only at hs hk
      obtain ⟨hdirectory, hbound⟩ := Classical.not_imp.mp hk
      rw [if_pos hdirectory] at hs
      rw [h.shown.depth_eq] at hbound
      obtain ⟨hshown, -, hlength⟩ := h.child hgoto hlookup hs
      by_cases hlong : ctx'.displayedPathLength ≤ maxFilePath + 1
      · match comps, h with
        | [], _ => exact hbound ⟨by simp, by omega⟩
        | [_], _ => exact hbound ⟨by simp, by omega⟩
        | [c, d], h =>
          obtain ⟨m, hfind, -⟩ := h.parent_second a.fails a.filename
          exact hshown.vfsOpen_third hlong hfind _ hresolved
        | _ :: _ :: _ :: _, h => exact absurd h.depth_le (by simp)
      · have htoo : maxFilePath < ctx'.entry.nameLength := by
          unfold Context.entry
          dsimp only
          omega
        rw [vfsOpen_long htoo] at hresolved
        cases hresolved

end

/-! ## Every run -/

theorem location_consistent_iff (t : FileTree) (buffer : Option Buffer) (fails : Failures) (ctx : Context)
    (hcreate : create t buffer fails = some ctx) (acts : List Act) :
    (ctx.path = ['/', '/'] ∧ ctx.currentDirectory = t.root) ∧
      (AllStates (onExecute t) (Consistent t) ctx acts ↔ AllSteps (onExecute t) (Keeps t) ctx acts) := by
  have h := create_located hcreate
  refine ⟨⟨h.shown.path_eq, (Except.ok.inj h.resolves).symm⟩, ?_⟩
  exact allStates_iff_allSteps (I := fun ctx => ∃ comps, Located t comps ctx)
    (fun _ ⟨_, h⟩ => h.consistent) (fun _ _ _ ⟨_, h⟩ hk hs => step_located h hk hs)
    (fun _ _ _ ⟨_, h⟩ hk hs => step_parted h hk hs) acts ctx ⟨[], h⟩

/-- Directories `//a`, `//a/b` and `//a/b/c`. -/
def nestedTree : FileTree where
  node
    | 0 => ⟨false, some [(['a'], 1)]⟩
    | 1 => ⟨false, some [(['b'], 2)]⟩
    | 2 => ⟨false, some [(['c'], 3)]⟩
    | _ => ⟨false, some []⟩
  root := 0
  slash_free := by
    intro n es h e he
    match n with
    | 0 | 1 | 2 =>
      cases h
      rw [List.mem_singleton.mp he]
      decide
    | n + 3 =>
      cases h
      cases he
  root_live := rfl

def goto (name : Name) (nul_free : '\x00' ∉ ['g', 'o', 't', 'o', ' '] ++ name) (fails : Failures) : Act :=
  ⟨⟨['g', 'o', 't', 'o', ' '] ++ name, nul_free⟩, fails, none, ⟨0, 0⟩⟩

/-- Down two levels and up again. -/
theorem location_consistent_two_levels : ∃ ctx,
    create nestedTree (some fun _ => 'x') (fun _ _ _ => none) = some ctx ∧
      AllStates (onExecute nestedTree) (Consistent nestedTree) ctx
        [goto ['a'] (by decide) fun _ _ _ => none, goto ['b'] (by decide) fun _ _ _ => none,
          goto ['.', '.'] (by decide) fun _ _ _ => none] := by
  refine ⟨_, rfl, (location_consistent_iff nestedTree (some fun _ => 'x') (fun _ _ _ => none) _ rfl _).2.mpr ?_⟩
  rintro _ ⟨⟩
  refine ⟨fun _ => by decide +kernel, ?_⟩
  rintro _ ⟨⟩
  refine ⟨fun _ => by decide +kernel, ?_⟩
  exact fun _ _ => ⟨fun _ => .inl rfl, trivial⟩

/-- `//a/b/c/` does not resolve. And when the lookup of `a` fails, `goto ..` shows `//a/` for `b`. -/
theorem location_parted : ∃ ctx, create nestedTree (some fun _ => 'x') (fun _ _ _ => none) = some ctx ∧
    (∃ ctx', run (onExecute nestedTree) ctx [goto ['a'] (by decide) fun _ _ _ => none,
        goto ['b'] (by decide) fun _ _ _ => none, goto ['c'] (by decide) fun _ _ _ => none] = some ctx' ∧
      ¬ Consistent nestedTree ctx') ∧
    ∃ ctx', run (onExecute nestedTree) ctx [goto ['a'] (by decide) fun _ _ _ => none,
        goto ['b'] (by decide) fun _ _ _ => none, goto ['.', '.'] (by decide) fun _ _ _ => some .unavailable] = some ctx' ∧
      ctx'.path = ['/', '/', 'a', '/'] ∧ ctx'.currentDirectory = 2 ∧ ¬ Consistent nestedTree ctx' := by
  refine ⟨_, rfl, ⟨_, rfl, fun h => ?_⟩, _, rfl, by decide, rfl, fun h => ?_⟩
  · exact absurd (h.resolves.symm.trans (show _ = .error .notFound from rfl)) (by simp)
  · have hnode : Except.ok 2 = Except.ok 1 := h.resolves.symm.trans rfl
    cases hnode

end BadLands.Shell.CommandContext
