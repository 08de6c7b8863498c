import BadLands.Fs.Status

/-!
# VFS path resolution

`VFS::Open` resolves a path in three functions that share hand-advanced pointers:
`ExtractFileName` walks back from the end to the last component, `HandleApplicationPath`
picks the root or its `partitions` child, and the loop of `OpenParent` walks the parent
path from the left, looking up one component at each `/`.

A pointer is an address in a character memory (0 is `nullptr`), so the model reads what
the source reads, also where a pointer has been advanced too far. Nodes are numbered;
`FileTree` gives each its kind and entries. Every call also returns the references it
opened and closed (`RefEv`), in order.

`resolve` is what path resolution is for: look up the components one after the other.
After a component, `OpenParent` advances the name pointer by `NameLength + 2` where the
next component starts at `NameLength + 1`, so the second intermediate lookup asks for the
name without its first character and with the `/` behind it (`walk_second`).
`open_resolves_iff` says exactly when `VFS::Open` still returns what `resolve` does;
`open_three_components` is a path of three components that it gets wrong.
-/
namespace BadLands.Fs.Vfs

open BadLands.Fs (Status Response)

abbrev Name := List Char

/-- What path resolution reads of a node: whether it was marked for removal, and its
entries if it is a directory (`none`: a file). -/
structure Node where
  removed : Bool
  entries : Option (List (Name × Nat))

/-- The nodes by number. Names never hold a `/` (no caller of `Create` or `AddNode`
passes one), and the root is never marked for removal: it is no directory's entry. -/
structure FileTree where
  node : Nat → Node
  root : Nat
  slash_free : ∀ n es, (node n).entries = some es → ∀ e ∈ es, '/' ∉ e.1
  root_live : (node root).removed = false

/-- Reference counting: a successful `Open` and a `Close` of a node. -/
inductive RefEv where
  | opened (n : Nat)
  | closed (n : Nat)
  deriving DecidableEq, Repr

/-- mirrors kernel/include/fs/IFNode.hpp:27-30 -/
structure DirectoryEntry where
  nameLength : Nat
  name : Nat
  deriving DecidableEq, Repr

/-- mirrors kernel/include/fs/IFNode.hpp:25 -/
def maxFilePath : Nat := 4096

/-- The `n` characters at address `a`. -/
def textAt (mem : Nat → Char) (a : Nat) : Nat → Name
  | 0 => []
  | n + 1 => mem a :: textAt mem (a + 1) n

def DirectoryEntry.text (mem : Nat → Char) (e : DirectoryEntry) : Name :=
  textAt mem e.name e.nameLength

/-! ## Lookup in one node -/

/-- mirrors kernel/src/fs/NPFS.cpp:263-292 (the slots in use, in block order) -/
def findEntry (es : List (Name × Nat)) (name : Name) : Response Nat :=
  if name.length = 0 then .error .invalidParameter
  else match es.find? fun e => e.1 == name with
    | some e => .ok e.2
    | none => .error .notFound

/-- `Find` of a node: a directory searches its entries and opens the node it finds, a file
refuses.
mirrors kernel/src/fs/NPFS.cpp:296-314, kernel/src/fs/IFNode.cpp:21-29,67-69 -/
def find (t : FileTree) (n : Nat) (name : Name) : Response Nat × List RefEv :=
  match (t.node n).entries with
  | none => (.error .unsupported, [])
  | some es =>
    match findEntry es name with
    | .error e => (.error e, [])
    | .ok m => if (t.node m).removed then (.error .unavailable, []) else (.ok m, [.opened m])

/-! ## The path functions -/

/-- mirrors kernel/src/fs/VFS.cpp:23-30 -/
def checkFilePath (mem : Nat → Char) (p : DirectoryEntry) : Bool :=
  !(p.name == 0 || decide (p.nameLength > maxFilePath) || decide (p.nameLength < 2) ||
    mem p.name != '/')

/-- mirrors kernel/src/fs/VFS.cpp:32-34 -/
def isApplicationPath (mem : Nat → Char) (p : DirectoryEntry) : Bool := mem (p.name + 1) != '/'

/-- The literal of `HandleApplicationPath`. -/
def applicationBase : Name := ['p', 'a', 'r', 't', 'i', 't', 'i', 'o', 'n', 's']

/-- Returns the node to start from and the entry `current`.
mirrors kernel/src/fs/VFS.cpp:36-58 -/
def handleApplicationPath (t : FileTree) (mem : Nat → Char) (p : DirectoryEntry) (node : Nat) :
    Response (Nat × DirectoryEntry) × List RefEv :=
  if isApplicationPath mem p then
    match find t node applicationBase with
    | (.error e, tr) => (.error e, tr)
    | (.ok m, tr) => (.ok (m, ⟨0, p.name + 1⟩), tr ++ [.closed node])
  else (.ok (node, ⟨0, p.name + 2⟩), [])

/-- The `while` of `ExtractFileName`: back to the `/` before the last component, counting.
mirrors kernel/src/fs/VFS.cpp:75-78 -/
def scanBack (mem : Nat → Char) (lo : Nat) : Nat → Nat → DirectoryEntry
  | 0, len => ⟨len, 0⟩
  | q + 1, len =>
    if mem (q + 1) ≠ '/' ∧ q + 1 > lo then scanBack mem lo q (len + 1) else ⟨len, q + 1⟩

/-- mirrors kernel/src/fs/VFS.cpp:60-85 -/
def extractFileName (mem : Nat → Char) (p : DirectoryEntry) : Response DirectoryEntry :=
  if p.name = 0 ∨ p.nameLength = 0 ∨ p.nameLength > maxFilePath then .error .invalidParameter
  else
    let last := p.name + p.nameLength - 1
    if mem last = '/' ∧ p.nameLength = 1 then .ok ⟨0, last⟩
    else
      let f := scanBack mem p.name (if mem last = '/' then last - 1 else last) 0
      .ok (if f.name ≠ p.name ∨ mem p.name = '/' then ⟨f.nameLength, f.name + 1⟩ else f)

/-- The `for` of `OpenParent` with `k` characters left, `i` the index in the parent path.
mirrors kernel/src/fs/VFS.cpp:122-148 -/
def walk (t : FileTree) (mem : Nat → Char) (base : Nat) :
    Nat → Nat → Nat → DirectoryEntry → Response (Nat × DirectoryEntry) × List RefEv
  | 0, _, node, current => (.ok (node, current), [])
  | k + 1, i, node, current =>
    if mem (base + i) = '/' then
      if current.nameLength = 0 then (.error .invalidParameter, [.closed node])
      else match find t node (current.text mem) with
        | (.error e, tr) => (.error e, tr ++ [.closed node])
        | (.ok m, tr) =>
          let r := walk t mem base k (i + 1) m ⟨0, current.name + (current.nameLength + 2)⟩
          (r.1, tr ++ [.closed node] ++ r.2)
    else walk t mem base k (i + 1) node ⟨current.nameLength + 1, current.name⟩

/-- Returns the parent node and the file name entry.
mirrors kernel/src/fs/VFS.cpp:93-155 -/
def openParent (t : FileTree) (mem : Nat → Char) (p : DirectoryEntry) :
    Response (Nat × DirectoryEntry) × List RefEv :=
  if !checkFilePath mem p then (.error .invalidParameter, [])
  else match extractFileName mem p with
    | .error e => (.error e, [])
    | .ok filename =>
      let parentpath : DirectoryEntry := ⟨filename.name - p.name, p.name⟩
      if (t.node t.root).removed then (.error .unavailable, [])
      else match handleApplicationPath t mem parentpath t.root with
        | (.error e, tr) => (.error e, .opened t.root :: tr ++ [.closed t.root])
        | (.ok (node, current), tr) =>
          let i := current.name - parentpath.name
          match walk t mem parentpath.name (parentpath.nameLength - i) i node current with
          | (.error e, tr') => (.error e, .opened t.root :: tr ++ tr')
          | (.ok (node', current'), tr') =>
            if current'.nameLength = 0 then
              (.ok (node', filename), .opened t.root :: tr ++ tr')
            else match find t node' (current'.text mem) with
              | (.error e, tr'') => (.error e, .opened t.root :: tr ++ tr' ++ tr'')
              | (.ok m, tr'') => (.ok (m, filename), .opened t.root :: tr ++ tr' ++ tr'')

/-- mirrors kernel/src/fs/VFS.cpp:157-173 -/
def vfsOpen (t : FileTree) (mem : Nat → Char) (p : DirectoryEntry) : Response Nat × List RefEv :=
  match openParent t mem p with
  | (.error e, tr) => (.error e, tr)
  | (.ok (node, filename), tr) =>
    if filename.nameLength = 0 then (.ok node, tr)
    else
      let r := find t node (filename.text mem)
      (r.1, tr ++ r.2 ++ [.closed node])

/-! ## What resolution is for -/

/-- Look up the components one after the other. -/
def resolve (t : FileTree) : Nat → List Name → Response Nat
  | n, [] => .ok n
  | n, c :: cs =>
    match (find t n c).1 with
    | .error e => .error e
    | .ok m => resolve t m cs

/-- The lookups a path asks for: from the root, or from its `partitions` child. -/
def expected (t : FileTree) (app : Bool) (comps : List Name) : Response Nat :=
  resolve t t.root (if app then applicationBase :: comps else comps)

/-- The components with a `/` between them. -/
def joined : List Name → Name
  | [] => []
  | [c] => c
  | c :: cs => c ++ '/' :: joined cs

/-- `//c1/.../cn`, or `/c1/.../cn` for an application path, with an optional `/` behind. -/
def pathText (app : Bool) (comps : List Name) (slash : Bool) : Name :=
  (if app then ['/'] else ['/', '/']) ++ joined comps ++ (if slash then ['/'] else [])

/-- The characters `l` stand at address `a`. -/
def Stored (mem : Nat → Char) : Nat → Name → Prop
  | _, [] => True
  | a, c :: l => mem a = c ∧ Stored mem (a + 1) l

/-! ## Characters in memory -/

theorem stored_append (mem : Nat → Char) : ∀ (a : Nat) (l m : Name),
    Stored mem a (l ++ m) ↔ Stored mem a l ∧ Stored mem (a + l.length) m
  | a, [], m => by simp [Stored]
  | a, c :: l, m => by
    simp only [List.cons_append, Stored, stored_append mem (a + 1) l m, List.length_cons, and_assoc]
    rw [show a + 1 + l.length = a + (l.length + 1) by omega]

theorem textAt_stored {mem : Nat → Char} : ∀ {a : Nat} {l : Name}, Stored mem a l →
    textAt mem a l.length = l
  | _, [], _ => rfl
  | _, _ :: _, h => by simp only [List.length_cons, textAt, h.1, textAt_stored h.2]

theorem stored_get {mem : Nat → Char} : ∀ {a : Nat} {l : Name} (i : Nat), Stored mem a l →
    (h : i < l.length) → mem (a + i) = l[i]
  | _, [], _, _, h => by simp at h
  | _, _ :: _, 0, hs, _ => hs.1
  | a, c :: l, i + 1, hs, h => by
    have := stored_get i hs.2 (by simpa using h)
    rw [List.getElem_cons_succ, ← this]
    congr 1
    omega

theorem stored_ne {mem : Nat → Char} {a i : Nat} {l : Name} (hs : Stored mem a l)
    (hl : '/' ∉ l) (h : i < l.length) : mem (a + i) ≠ '/' := by
  rw [stored_get i hs h]
  exact fun he => hl (he ▸ List.getElem_mem h)

/-! ## The two loops -/

/-- Walking back over `j` characters that are not `/` stops at the `/` before them. -/
theorem scanBack_spec (mem : Nat → Char) (lo a : Nat) (ha : mem a = '/') (hlo : lo ≤ a) :
    ∀ (j len : Nat), (∀ i, i < j → mem (a + 1 + i) ≠ '/') →
      scanBack mem lo (a + j) len = ⟨len + j, a⟩
  | 0, len, _ => by
    cases a with
    | zero => rfl
    | succ a => simp [scanBack, ha]
  | j + 1, len, h => by
    have hj := h j (by omega)
    rw [show a + 1 + j = a + j + 1 by omega] at hj
    have ih := scanBack_spec mem lo a ha hlo j (len + 1) (fun i hi => h i (by omega))
    rw [show a + (j + 1) = a + j + 1 by omega, scanBack, if_pos ⟨hj, by omega⟩, ih]
    congr 1
    omega

/-- Characters of a component only extend `current`. -/
theorem walk_chars (t : FileTree) (mem : Nat → Char) (base : Nat) (k node a : Nat) :
    ∀ (c : Name) (i len : Nat), Stored mem (base + i) c → '/' ∉ c →
      walk t mem base (c.length + k) i node ⟨len, a⟩ =
        walk t mem base k (i + c.length) node ⟨len + c.length, a⟩
  | [], i, len, _, _ => by simp
  | x :: c, i, len, hs, hc => by
    have hx : mem (base + i) ≠ '/' := by
      rw [hs.1]
      exact fun h => hc (h ▸ List.mem_cons_self)
    have ih := walk_chars t mem base k node a c (i + 1) (len + 1) hs.2
      (fun h => hc (List.mem_cons_of_mem _ h))
    rw [List.length_cons, show c.length + 1 + k = c.length + k + 1 by omega, walk, if_neg hx, ih,
      show i + 1 + c.length = i + (c.length + 1) by omega,
      show len + 1 + c.length = len + (c.length + 1) by omega]

/-- One whole component and the `/` behind it: one lookup, by the text at `a`. -/
theorem walk_component (t : FileTree) (mem : Nat → Char) (base k i node a : Nat) (c : Name)
    (hs : Stored mem (base + i) (c ++ ['/'])) (hc : '/' ∉ c) (hne : c ≠ []) :
    walk t mem base (c.length + 1 + k) i node ⟨0, a⟩ =
      match find t node (textAt mem a c.length) with
      | (.error e, tr) => (.error e, tr ++ [.closed node])
      | (.ok m, tr) =>
        ((walk t mem base k (i + c.length + 1) m ⟨0, a + (c.length + 2)⟩).1,
          tr ++ [.closed node] ++
            (walk t mem base k (i + c.length + 1) m ⟨0, a + (c.length + 2)⟩).2) := by
  obtain ⟨h1, h2⟩ := (stored_append mem _ _ _).mp hs
  have hslash : mem (base + (i + c.length)) = '/' := by
    rw [← Nat.add_assoc]; exact h2.1
  have hlen : c.length ≠ 0 := fun h => hne (List.eq_nil_of_length_eq_zero h)
  rw [show c.length + 1 + k = c.length + (k + 1) by omega, walk_chars t mem base _ node a c i 0 h1 hc,
    walk, if_pos hslash, Nat.zero_add, if_neg hlen]
  rfl


/-! ## The shape of a path -/

/-- The intermediate components, each with the `/` behind it. -/
def parentText (init : List Name) : Name := init.flatMap (· ++ ['/'])

theorem joined_concat (last : Name) : ∀ init : List Name,
    joined (init ++ [last]) = parentText init ++ last
  | [] => rfl
  | [c] => by simp [joined, parentText]
  | c :: d :: init => by
    have ih := joined_concat last (d :: init)
    simp only [List.cons_append] at ih ⊢
    rw [joined, ih]
    · simp [parentText]
    · simp

def pathHead (app : Bool) : Name := if app then ['/'] else ['/', '/']

theorem parent_ends (app : Bool) (init : List Name) :
    ∃ l, pathHead app ++ parentText init = l ++ ['/'] := by
  rcases List.eq_nil_or_concat init with rfl | ⟨init, c, rfl⟩
  · cases app
    · exact ⟨['/'], rfl⟩
    · exact ⟨[], rfl⟩
  · exact ⟨pathHead app ++ parentText init ++ c, by simp [parentText]⟩

/-- A well-formed path in memory, split at its last component. -/
structure PathAt (mem : Nat → Char) (app : Bool) (init : List Name) (last : Name) (slash : Bool)
    (p : DirectoryEntry) : Prop where
  name_pos : p.name ≠ 0
  length_eq : p.nameLength = (pathText app (init ++ [last]) slash).length
  length_le : p.nameLength ≤ maxFilePath
  stored : Stored mem p.name (pathText app (init ++ [last]) slash)
  slash_free : ∀ c ∈ init ++ [last], '/' ∉ c
  non_empty : ∀ c ∈ init ++ [last], c ≠ []

section
variable {t : FileTree} {mem : Nat → Char} {app slash : Bool} {init : List Name} {last : Name}
  {p : DirectoryEntry}

theorem pathText_split : pathText app (init ++ [last]) slash =
    (pathHead app ++ parentText init) ++ (last ++ (if slash then ['/'] else [])) := by
  unfold pathText pathHead
  rw [joined_concat]
  simp only [List.append_assoc]

theorem pathHead_length : (pathHead app).length = if app then 1 else 2 := by
  cases app <;> rfl

theorem PathAt.last_ok (h : PathAt mem app init last slash p) : '/' ∉ last ∧ last ≠ [] :=
  ⟨h.slash_free _ (by simp), h.non_empty _ (by simp)⟩

theorem PathAt.parts (h : PathAt mem app init last slash p) :
    Stored mem p.name (pathHead app) ∧
      Stored mem (p.name + (pathHead app).length) (parentText init) ∧
      Stored mem (p.name + (pathHead app ++ parentText init).length) last ∧
      Stored mem (p.name + (pathHead app ++ parentText init).length + last.length)
        (if slash then ['/'] else []) := by
  have hs := h.stored
  rw [pathText_split, stored_append, stored_append, stored_append] at hs
  obtain ⟨⟨h1, h2⟩, h3, h4⟩ := hs
  exact ⟨h1, h2, h3, h4⟩

theorem PathAt.length_split (h : PathAt mem app init last slash p) :
    p.nameLength = (pathHead app ++ parentText init).length + last.length +
      (if slash then 1 else 0) := by
  rw [h.length_eq, pathText_split]
  cases slash <;> simp [Nat.add_assoc]

theorem PathAt.first_slash (h : PathAt mem app init last slash p) : mem p.name = '/' := by
  have := h.parts.1
  cases app <;> exact this.1

/-- The parent path ends with a `/`. -/
theorem PathAt.parent_slash (h : PathAt mem app init last slash p) :
    mem (p.name + ((pathHead app ++ parentText init).length - 1)) = '/' := by
  obtain ⟨l, hl⟩ := parent_ends app init
  have hs : Stored mem p.name (pathHead app ++ parentText init) :=
    (stored_append mem _ _ _).mpr ⟨h.parts.1, h.parts.2.1⟩
  rw [hl] at hs ⊢
  have := ((stored_append mem _ _ _).mp hs).2.1
  simpa using this

theorem pathHead_pos (app : Bool) (init : List Name) :
    0 < (pathHead app ++ parentText init).length := by
  rw [List.length_append, pathHead_length]
  split <;> omega

/-- `ExtractFileName` finds the last component, with or without a `/` behind it. -/
theorem PathAt.extract (h : PathAt mem app init last slash p) :
    extractFileName mem p =
      .ok ⟨last.length, p.name + (pathHead app ++ parentText init).length⟩ := by
  have hlen := h.length_split
  have hpos := pathHead_pos app init
  obtain ⟨-, -, hlast, hend⟩ := h.parts
  obtain ⟨hls, hln⟩ := h.last_ok
  have hlp : 0 < last.length := List.length_pos_iff.mpr hln
  have hback := scanBack_spec mem p.name (p.name + ((pathHead app ++ parentText init).length - 1))
    h.parent_slash (by omega) last.length 0 (fun i hi => by
      rw [show p.name + ((pathHead app ++ parentText init).length - 1) + 1 + i =
        p.name + (pathHead app ++ parentText init).length + i by omega]
      exact stored_ne hlast hls hi)
  generalize (pathHead app ++ parentText init).length = N at *
  unfold extractFileName
  rw [if_neg (by
    have := h.name_pos
    have := h.length_le
    omega)]
  have hq : (if mem (p.name + p.nameLength - 1) = '/' then p.name + p.nameLength - 1 - 1
      else p.name + p.nameLength - 1) = p.name + (N - 1) + last.length := by
    cases slash with
    | true =>
      have : mem (p.name + p.nameLength - 1) = '/' := by
        simp only [if_true] at hend hlen
        rw [show p.name + p.nameLength - 1 = p.name + N + last.length by omega]
        exact hend.1
      rw [if_pos this]
      simp only [if_true] at hlen
      omega
    | false =>
      simp only [Bool.false_eq_true, if_false] at hlen
      have : mem (p.name + p.nameLength - 1) ≠ '/' := by
        rw [show p.name + p.nameLength - 1 = p.name + N + (last.length - 1) by omega]
        exact stored_ne hlast hls (by omega)
      rw [if_neg this]
      omega
  simp only [hq, hback, h.first_slash, or_true, if_true, Nat.zero_add]
  rw [if_neg (by
    rintro ⟨-, h1⟩
    omega)]
  congr 2
  omega

theorem PathAt.check (h : PathAt mem app init last slash p) : checkFilePath mem p = true := by
  have hlen := h.length_split
  have hpos := pathHead_pos app init
  have hlp : 0 < last.length := List.length_pos_iff.mpr h.last_ok.2
  have h2 : ¬ p.nameLength < 2 := by split at hlen <;> omega
  have h3 := h.length_le
  simp [checkFilePath, h.name_pos, h.first_slash, h2, h3]

/-- The second character tells an application path from the others. -/
theorem PathAt.isApplication (h : PathAt mem app init last slash p) (n : Nat) :
    isApplicationPath mem ⟨n, p.name⟩ = app := by
  unfold isApplicationPath
  cases app with
  | false => simp [show mem (p.name + 1) = '/' from h.parts.1.2.1]
  | true =>
    -- the first component starts right behind the only leading `/`
    have hs : Stored mem (p.name + 1) (joined (init ++ [last])) := by
      have := h.parts
      rw [joined_concat, stored_append]
      refine ⟨this.2.1, ?_⟩
      have h3 := this.2.2.1
      rw [List.length_append, pathHead_length, if_pos rfl, ← Nat.add_assoc] at h3
      exact h3
    obtain ⟨c, cs, hc⟩ : ∃ c cs, init ++ [last] = c :: cs := by
      cases init with
      | nil => exact ⟨last, [], rfl⟩
      | cons c cs => exact ⟨c, cs ++ [last], rfl⟩
    have hcm : c ∈ init ++ [last] := by rw [hc]; exact List.mem_cons_self
    obtain ⟨x, xs, rfl⟩ : ∃ x xs, c = x :: xs := by
      cases c with
      | nil => exact absurd rfl (h.non_empty _ hcm)
      | cons x xs => exact ⟨x, xs, rfl⟩
    have hx : mem (p.name + 1) = x := by
      rw [hc] at hs
      cases cs with
      | nil => exact hs.1
      | cons d ds => exact hs.1
    have hne : x ≠ '/' := fun he => h.slash_free _ hcm (he ▸ List.mem_cons_self)
    simp [hx, hne]

/-- The node the walk starts from. -/
def start (t : FileTree) (app : Bool) : Response Nat :=
  if app then (find t t.root applicationBase).1 else .ok t.root

theorem PathAt.handle (h : PathAt mem app init last slash p) (n : Nat) :
    (handleApplicationPath t mem ⟨n, p.name⟩ t.root).1 =
      (start t app).map fun m => (m, ⟨0, p.name + (pathHead app).length⟩) := by
  unfold handleApplicationPath start
  rw [h.isApplication n]
  cases app with
  | false => rfl
  | true =>
    simp only [if_true]
    rcases find t t.root applicationBase with ⟨_ | m, tr⟩ <;> rfl

/-- The walk of the parent path from node `n`. -/
def parentWalk (t : FileTree) (mem : Nat → Char) (app : Bool) (init : List Name)
    (p : DirectoryEntry) (n : Nat) : Response (Nat × DirectoryEntry) × List RefEv :=
  walk t mem p.name (parentText init).length (pathHead app).length n
    ⟨0, p.name + (pathHead app).length⟩

/-- `VFS::Open` as its three parts: start node, walk, last lookup. -/
theorem PathAt.open_eq (h : PathAt mem app init last slash p) :
    (∀ e, start t app = .error e → (vfsOpen t mem p).1 = .error e) ∧
    (∀ n e, start t app = .ok n → (parentWalk t mem app init p n).1 = .error e →
      (vfsOpen t mem p).1 = .error e) ∧
    (∀ n m a, start t app = .ok n → (parentWalk t mem app init p n).1 = .ok (m, ⟨0, a⟩) →
      (vfsOpen t mem p).1 = (find t m last).1) := by
  have hh := h.handle (t := t) ((pathHead app ++ parentText init).length)
  have hlast : DirectoryEntry.text mem
      ⟨last.length, p.name + (pathHead app ++ parentText init).length⟩ = last :=
    textAt_stored h.parts.2.2.1
  have hne : last.length ≠ 0 := fun he => h.last_ok.2 (List.eq_nil_of_length_eq_zero he)
  unfold vfsOpen openParent
  rw [h.check, h.extract]
  simp only [Bool.not_true, Bool.false_eq_true, if_false, t.root_live, Nat.add_sub_cancel_left]
  unfold parentWalk
  refine ⟨fun e he => ?_, fun n e hn hw => ?_, fun n m a hn hw => ?_⟩
  · rcases hr : handleApplicationPath t mem ⟨(pathHead app ++ parentText init).length, p.name⟩
      t.root with ⟨r, tr⟩
    rw [hr, he] at hh
    simp only [Except.map] at hh
    rw [hh]
  all_goals
    rcases hr : handleApplicationPath t mem ⟨(pathHead app ++ parentText init).length, p.name⟩
      t.root with ⟨r, tr⟩
    rw [hr, hn] at hh
    simp only [Except.map] at hh
    rw [hh]
    simp only [Nat.add_sub_cancel_left, List.length_append]
    rcases hr' : walk t mem p.name (parentText init).length (pathHead app).length n
      ⟨0, p.name + (pathHead app).length⟩ with ⟨r', tr'⟩
    rw [hr'] at hw
    subst hw
  · rfl
  · rw [List.length_append] at hlast
    simp only [if_true, if_neg hne, hlast]

/-! ## The walk, by depth -/

theorem PathAt.walk_nil (n : Nat) :
    (parentWalk t mem app [] p n).1 = .ok (n, ⟨0, p.name + (pathHead app).length⟩) := rfl

/-- The first intermediate lookup asks for the first component. -/
theorem PathAt.walk_first {c : Name} {cs : List Name}
    (h : PathAt mem app (c :: cs) last slash p) (n : Nat) :
    (parentWalk t mem app (c :: cs) p n).1 =
      match (find t n c).1 with
      | .error e => .error e
      | .ok m => (walk t mem p.name (parentText cs).length ((pathHead app).length + c.length + 1) m
          ⟨0, p.name + (pathHead app).length + (c.length + 2)⟩).1 := by
  have hs := h.parts.2.1
  have hsplit : parentText (c :: cs) = (c ++ ['/']) ++ parentText cs := rfl
  rw [hsplit, stored_append] at hs
  have hc : '/' ∉ c := h.slash_free _ (by simp)
  have hne : c ≠ [] := h.non_empty _ (by simp)
  have htext : textAt mem (p.name + (pathHead app).length) c.length = c :=
    textAt_stored ((stored_append mem _ _ _).mp hs.1).1
  unfold parentWalk
  rw [hsplit, List.length_append, List.length_append, List.length_singleton,
    walk_component t mem p.name _ _ n _ c hs.1 hc hne, htext]
  rcases find t n c with ⟨_ | m, tr⟩ <;> rfl

/-- The second one asks for a name that holds a `/`: the pointer is one too far. -/
theorem PathAt.walk_second {c d : Name} {cs : List Name}
    (h : PathAt mem app (c :: d :: cs) last slash p) (m : Nat) :
    (walk t mem p.name (parentText (d :: cs)).length ((pathHead app).length + c.length + 1) m
        ⟨0, p.name + (pathHead app).length + (c.length + 2)⟩).1 =
      .error (if (t.node m).entries = none then .unsupported else .notFound) := by
  have hs := h.parts.2.1
  have hsplit : parentText (c :: d :: cs) = (c ++ ['/']) ++ ((d ++ ['/']) ++ parentText cs) := rfl
  rw [hsplit, stored_append] at hs
  have hds := ((stored_append mem _ _ _).mp hs.2).1
  have hd : '/' ∉ d := h.slash_free _ (by simp)
  obtain ⟨x, xs, rfl⟩ : ∃ x xs, d = x :: xs := by
    cases d with
    | nil => exact absurd rfl (h.non_empty [] (by simp))
    | cons x xs => exact ⟨x, xs, rfl⟩
  have hst : Stored mem (p.name + ((pathHead app).length + c.length + 1)) ((x :: xs) ++ ['/']) := by
    rw [List.length_append, List.length_singleton] at hds
    rw [show p.name + ((pathHead app).length + c.length + 1) =
      p.name + (pathHead app).length + (c.length + 1) by omega]
    exact hds
  -- one character further on stand the rest of the name and the `/`
  have htext : textAt mem (p.name + (pathHead app).length + (c.length + 2)) (x :: xs).length =
      xs ++ ['/'] := by
    have h2 : Stored mem (p.name + ((pathHead app).length + c.length + 1) + 1) (xs ++ ['/']) := hst.2
    rw [show p.name + (pathHead app).length + (c.length + 2) =
      p.name + ((pathHead app).length + c.length + 1) + 1 by omega,
      show (x :: xs).length = (xs ++ ['/']).length by simp]
    exact textAt_stored h2
  have hlen : (parentText ((x :: xs) :: cs)).length =
      (x :: xs).length + 1 + (parentText cs).length := by
    simp only [parentText, List.flatMap_cons, List.length_append, List.length_singleton]
  rw [hlen, walk_component t mem p.name _ _ m _ (x :: xs) hst hd (by simp), htext]
  unfold find
  cases he : (t.node m).entries with
  | none => simp
  | some es =>
    have hnf : findEntry es (xs ++ ['/']) = .error .notFound := by
      have hnone : es.find? (fun e => e.1 == xs ++ ['/']) = none := by
        rw [List.find?_eq_none]
        intro e hem hb
        have heq : e.1 = xs ++ ['/'] := by simpa using hb
        exact t.slash_free m es he e hem (heq ▸ by simp)
      unfold findEntry
      rw [if_neg (by simp), hnone]
    simp [hnf]

end

/-! ## When `VFS::Open` resolves its path -/

/-- The first lookup of the path fails or finds a file. -/
def FirstIsNoDirectory (t : FileTree) (app : Bool) (comps : List Name) : Prop :=
  ∀ d, expected t app (comps.take 1) = .ok d → (t.node d).entries = none

/-- At most two components, or the first one is no directory, or the path resolves to
`NOT_FOUND` anyway. -/
def ResolvesRight (t : FileTree) (app : Bool) (comps : List Name) : Prop :=
  comps.length ≤ 2 ∨ FirstIsNoDirectory t app comps ∨ expected t app comps = .error .notFound

theorem expected_eq (t : FileTree) (app : Bool) (comps : List Name) :
    expected t app comps =
      match start t app with
      | .error e => .error e
      | .ok n => resolve t n comps := by
  unfold expected start
  cases app with
  | false => rfl
  | true =>
    simp only [if_true, resolve]

theorem resolve_cons (t : FileTree) (n : Nat) (c : Name) (cs : List Name) :
    resolve t n (c :: cs) =
      match (find t n c).1 with
      | .error e => .error e
      | .ok m => resolve t m cs := rfl

theorem resolve_single (t : FileTree) (n : Nat) (c : Name) : resolve t n [c] = (find t n c).1 := by
  rw [resolve_cons]
  cases (find t n c).1 <;> rfl

section
variable {t : FileTree} {mem : Nat → Char} {app slash : Bool} {init : List Name} {last : Name} {p : DirectoryEntry}

theorem PathAt.open_start_error (h : PathAt mem app init last slash p) {e : Status} (hs : start t app = .error e) :
    (vfsOpen t mem p).1 = expected t app (init ++ [last]) := by
  rw [h.open_eq.1 e hs, expected_eq, hs]

/-- Up to two components are looked up one after the other. -/
theorem PathAt.open_short (h : PathAt mem app init last slash p) (hshort : init.length ≤ 1) :
    (vfsOpen t mem p).1 = expected t app (init ++ [last]) := by
  obtain ⟨-, hwalk, hok⟩ := h.open_eq (t := t)
  cases hs : start t app with
  | error e => exact h.open_start_error hs
  | ok n =>
    rw [expected_eq, hs]
    match init with
    | [] =>
      rw [hok n n _ hs (PathAt.walk_nil n), List.nil_append]
      exact (resolve_single t n last).symm
    | [c] =>
      have hw := h.walk_first (t := t) n
      simp only [List.cons_append, List.nil_append, resolve_cons t n c]
      cases hf : (find t n c).1 with
      | error e =>
        rw [hf] at hw
        exact hwalk n e hs hw
      | ok m =>
        rw [hf] at hw
        exact (hok n m _ hs hw).trans (resolve_single t m last).symm
    | _ :: _ :: _ => simp at hshort

/-- With more of them, once the first is found. -/
theorem PathAt.open_long {c d : Name} {cs : List Name} (h : PathAt mem app (c :: d :: cs) last slash p) {n m : Nat}
    (hs : start t app = .ok n) (hf : (find t n c).1 = .ok m) :
    (vfsOpen t mem p).1 = .error (if (t.node m).entries = none then .unsupported else .notFound) := by
  have hw := h.walk_first (t := t) n
  rw [hf] at hw
  exact h.open_eq.2.1 n _ hs (hw.trans (h.walk_second m))

end

/-- `VFS::Open` on `//c1/.../cn` (or `/c1/.../cn`), with or without a trailing slash, returns
what looking up the components returns iff there are at most two of them, or the first is
no directory, or the answer is `NOT_FOUND` anyway. -/
theorem open_resolves_iff (t : FileTree) (mem : Nat → Char) (app slash : Bool) (init : List Name)
    (last : Name) (p : DirectoryEntry) (h : PathAt mem app init last slash p) :
    (vfsOpen t mem p).1 = expected t app (init ++ [last]) ↔
      ResolvesRight t app (init ++ [last]) := by
  unfold ResolvesRight FirstIsNoDirectory
  cases hs : start t app with
  | error e =>
    refine ⟨fun _ => .inr (.inl fun d hd => ?_), fun _ => h.open_start_error hs⟩
    rw [expected_eq, hs] at hd
    cases hd
  | ok n =>
    match init with
    | [] => exact ⟨fun _ => .inl (by simp), fun _ => h.open_short (by simp)⟩
    | [c] => exact ⟨fun _ => .inl (by simp), fun _ => h.open_short (by simp)⟩
    | c :: d :: cs =>
      rw [expected_eq, expected_eq, hs]
      simp only [List.cons_append, resolve_cons t n c, List.take_succ_cons, List.take_zero,
        List.length_cons, List.length_append]
      cases hf : (find t n c).1 with
      | error e =>
        have hw := h.walk_first (t := t) n
        rw [hf] at hw
        rw [h.open_eq.2.1 n e hs hw]
        exact ⟨fun _ => .inr (.inl fun d hd => by cases hd), fun _ => rfl⟩
      | ok m =>
        rw [h.open_long hs hf]
        cases hent : (t.node m).entries with
        | none =>
          -- a file refuses every name, so both fail alike
          refine ⟨fun _ => .inr (.inl fun d hd => ?_), fun _ => ?_⟩
          · cases hd
            exact hent
          · dsimp only
            rw [resolve_cons]
            simp [find, hent]
        | some es =>
          simp only [reduceCtorEq, if_false]
          refine ⟨fun he => .inr (.inr he.symm), ?_⟩
          rintro (hl | hn | he)
          · omega
          · have := hn m rfl
            rw [hent] at this
            cases this
          · exact he.symm

/-- `//a/b/c`: three nested entries, the last a file. -/
def abcNode : Nat → Node
  | 0 => ⟨false, some [(['a'], 1)]⟩
  | 1 => ⟨false, some [(['b'], 2)]⟩
  | 2 => ⟨false, some [(['c'], 3)]⟩
  | _ => ⟨false, none⟩

def abcTree : FileTree where
  node := abcNode
  root := 0
  slash_free := by
    intro n es h e he
    match n with
    | 0 | 1 | 2 =>
      simp only [abcNode, Option.some.injEq] at h
      subst h
      simp only [List.mem_singleton] at he
      subst he
      decide
    | n + 3 => simp [abcNode] at h
  root_live := rfl

/-- The path of `comps` at address 1. -/
def pathMem (comps : List Name) (a : Nat) : Char := (pathText false comps false).getD (a - 1) ' '

theorem open_resolves_two :
    PathAt (pathMem [['a'], ['b']]) false [['a']] ['b'] false ⟨5, 1⟩ ∧
      (vfsOpen abcTree (pathMem [['a'], ['b']]) ⟨5, 1⟩).1 = .ok 2 := by
  have h : PathAt (pathMem [['a'], ['b']]) false [['a']] ['b'] false ⟨5, 1⟩ :=
    ⟨by decide, by decide, by decide, by simp [Stored, pathMem, pathText, joined],
      by decide, by decide⟩
  exact ⟨h, ((open_resolves_iff abcTree _ false false [['a']] ['b'] _ h).mpr
    (.inl (by decide))).trans rfl⟩

/-- The second intermediate lookup of `//a/b/c` asks node `a` for the name `/`. -/
theorem open_three_components :
    PathAt (pathMem [['a'], ['b'], ['c']]) false [['a'], ['b']] ['c'] false ⟨7, 1⟩ ∧
      expected abcTree false [['a'], ['b'], ['c']] = .ok 3 ∧
      (vfsOpen abcTree (pathMem [['a'], ['b'], ['c']]) ⟨7, 1⟩).1 = .error .notFound :=
  ⟨⟨by decide, by decide, by decide, by simp [Stored, pathMem, pathText, joined],
    by decide, by decide⟩, rfl, rfl⟩

end BadLands.Fs.Vfs
