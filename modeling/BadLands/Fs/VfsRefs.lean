import BadLands.Fs.Vfs

/-!
# VFS: references along a path

Each step of `VFS::OpenParent` opens the child before it closes the parent, and every exit has
its own clean-up. Here `Find` is whatever answers (`Finder`): any status at any step, also one
that no file of a `FileTree` gives; a node it returns has been opened. `openParent_tree` and
`open_tree` say that the model of `Fs.Vfs` is the instance for a tree.

`vfs_balanced`: a call that returns a node leaves one more reference to that node, a call that
returns an error leaves none. The reason is in `extract_slash`: the parent path ends in a `/`,
so the walk never ends inside a component and the last `Find` of `OpenParent`, which would keep
its parent open, is never made.
-/
namespace BadLands.Fs.VfsRefs

open BadLands.Fs (Status Response)
open BadLands.Fs.Vfs (Name RefEv DirectoryEntry FileTree checkFilePath isApplicationPath applicationBase
  scanBack extractFileName)

/-- What `Find` of a node answers, after the references so far were opened and closed. -/
abbrev Finder := List RefEv → Nat → Name → Response Nat

/-! ## The path functions, over any `Find` -/

/-- A node that is returned has been opened.
mirrors kernel/src/fs/NPFS.cpp:296-314 -/
def find (f : Finder) (n : Nat) (name : Name) (tr : List RefEv) : Response Nat × List RefEv :=
  match f tr n name with
  | .error e => (.error e, tr)
  | .ok m => (.ok m, tr ++ [.opened m])

/-- mirrors kernel/src/fs/VFS.cpp:36-58 -/
def handleApplicationPath (f : Finder) (mem : Nat → Char) (p : DirectoryEntry) (node : Nat)
    (tr : List RefEv) : Response (Nat × DirectoryEntry) × List RefEv :=
  if isApplicationPath mem p then
    match find f node applicationBase tr with
    | (.error e, tr) => (.error e, tr)
    | (.ok m, tr) => (.ok (m, ⟨0, p.name + 1⟩), tr ++ [.closed node])
  else (.ok (node, ⟨0, p.name + 2⟩), tr)

/-- mirrors kernel/src/fs/VFS.cpp:122-148 -/
def walk (f : Finder) (mem : Nat → Char) (base : Nat) :
    Nat → Nat → Nat → DirectoryEntry → List RefEv → Response (Nat × DirectoryEntry) × List RefEv
  | 0, _, node, current, tr => (.ok (node, current), tr)
  | k + 1, i, node, current, tr =>
    if mem (base + i) = '/' then
      if current.nameLength = 0 then (.error .invalidParameter, tr ++ [.closed node])
      else match find f node (current.text mem) tr with
        | (.error e, tr) => (.error e, tr ++ [.closed node])
        | (.ok m, tr) =>
          walk f mem base k (i + 1) m ⟨0, current.name + (current.nameLength + 2)⟩ (tr ++ [.closed node])
    else walk f mem base k (i + 1) node ⟨current.nameLength + 1, current.name⟩ tr

/-- mirrors kernel/src/fs/VFS.cpp:93-155; `rootRemoved`: what `root.Open()` tests. -/
def openParent (f : Finder) (root : Nat) (rootRemoved : Bool) (mem : Nat → Char) (p : DirectoryEntry) :
    Response (Nat × DirectoryEntry) × List RefEv :=
  if !checkFilePath mem p then (.error .invalidParameter, [])
  else match extractFileName mem p with
    | .error e => (.error e, [])
    | .ok filename =>
      let parentpath : DirectoryEntry := ⟨filename.name - p.name, p.name⟩
      if rootRemoved then (.error .unavailable, [])
      else match handleApplicationPath f mem parentpath root [.opened root] with
        | (.error e, tr) => (.error e, tr ++ [.closed root])
        | (.ok (node, current), tr) =>
          let i := current.name - parentpath.name
          match walk f mem parentpath.name (parentpath.nameLength - i) i node current tr with
          | (.error e, tr) => (.error e, tr)
          | (.ok (node, current), tr) =>
            if current.nameLength = 0 then (.ok (node, filename), tr)
            else match find f node (current.text mem) tr with
              | (.error e, tr) => (.error e, tr)
              | (.ok m, tr) => (.ok (m, filename), tr)

/-- mirrors kernel/src/fs/VFS.cpp:157-173 -/
def vfsOpen (f : Finder) (root : Nat) (rootRemoved : Bool) (mem : Nat → Char) (p : DirectoryEntry) :
    Response Nat × List RefEv :=
  match openParent f root rootRemoved mem p with
  | (.error e, tr) => (.error e, tr)
  | (.ok (node, filename), tr) =>
    if filename.nameLength = 0 then (.ok node, tr)
    else
      let r := find f node (filename.text mem) tr
      (r.1, r.2 ++ [.closed node])

/-! ## The instance for a tree -/

/-- The answers of the nodes of a tree do not depend on the references. -/
def treeFinder (t : FileTree) : Finder := fun _ n name => (Vfs.find t n name).1

section
variable {t : FileTree} {mem : Nat → Char} {p : DirectoryEntry}

/-- `Find` in a tree opens exactly the node it returns. -/
theorem find_refs (n : Nat) (name : Name) :
    (Vfs.find t n name).2 = match (Vfs.find t n name).1 with
      | .error _ => []
      | .ok m => [.opened m] := by
  unfold Vfs.find
  cases (t.node n).entries with
  | none => rfl
  | some es =>
    dsimp only
    cases Vfs.findEntry es name with
    | error e => rfl
    | ok m =>
      dsimp only
      split
      · rfl
      · rfl

theorem find_tree (n : Nat) (name : Name) (tr : List RefEv) :
    find (treeFinder t) n name tr = ((Vfs.find t n name).1, tr ++ (Vfs.find t n name).2) := by
  unfold find treeFinder
  rw [find_refs]
  cases (Vfs.find t n name).1 with
  | error e => simp
  | ok m => simp

theorem handleApplicationPath_tree (node : Nat) (tr : List RefEv) :
    handleApplicationPath (treeFinder t) mem p node tr =
      ((Vfs.handleApplicationPath t mem p node).1, tr ++ (Vfs.handleApplicationPath t mem p node).2) := by
  unfold handleApplicationPath Vfs.handleApplicationPath
  split
  · rw [find_tree]
    cases Vfs.find t node applicationBase with
    | mk r tr' =>
      cases r with
      | error e => simp
      | ok m => simp
  · simp

theorem walk_tree (base k : Nat) : ∀ (i node : Nat) (current : DirectoryEntry) (tr : List RefEv),
    walk (treeFinder t) mem base k i node current tr =
      ((Vfs.walk t mem base k i node current).1, tr ++ (Vfs.walk t mem base k i node current).2) := by
  induction k with
  | zero =>
    intro i node current tr
    simp [walk, Vfs.walk]
  | succ k ih =>
    intro i node current tr
    rw [walk, Vfs.walk]
    split
    · split
      · simp
      · rw [find_tree]
        cases Vfs.find t node (current.text mem) with
        | mk r tr' =>
          cases r with
          | error e => simp
          | ok m =>
            dsimp only
            rw [ih]
            simp
    · exact ih _ _ _ _

theorem openParent_tree :
    openParent (treeFinder t) t.root (t.node t.root).removed mem p = Vfs.openParent t mem p := by
  unfold openParent Vfs.openParent
  split
  · rfl
  cases extractFileName mem p with
  | error e => rfl
  | ok filename =>
    dsimp only
    split
    · rfl
    rw [handleApplicationPath_tree]
    cases Vfs.handleApplicationPath t mem ⟨filename.name - p.name, p.name⟩ t.root with
    | mk r tr =>
      cases r with
      | error e => simp
      | ok start =>
        dsimp only
        rw [walk_tree]
        cases Vfs.walk t mem p.name (filename.name - p.name - (start.2.name - p.name)) (start.2.name - p.name)
            start.1 start.2 with
        | mk r' tr' =>
          cases r' with
          | error e => simp
          | ok stop =>
            dsimp only
            split
            · simp
            · rw [find_tree]
              cases Vfs.find t stop.1 (stop.2.text mem) with
              | mk r'' tr'' =>
                cases r'' with
                | error e => simp
                | ok m => simp

theorem open_tree :
    vfsOpen (treeFinder t) t.root (t.node t.root).removed mem p = Vfs.vfsOpen t mem p := by
  unfold vfsOpen Vfs.vfsOpen
  rw [openParent_tree]
  cases Vfs.openParent t mem p with
  | mk r tr =>
    cases r with
    | error e => rfl
    | ok parent =>
      dsimp only
      split
      · rfl
      · rw [find_tree]

end

/-! ## Short paths -/

section
variable {f : Finder} {root : Nat} {mem : Nat → Char} {p : DirectoryEntry}

/-- Characters of a component only extend `current`. -/
theorem walk_name (base k node a : Nat) (tr : List RefEv) : ∀ (c : Name) (i len : Nat), Vfs.Stored mem (base + i) c →
    '/' ∉ c → walk f mem base (c.length + k) i node ⟨len, a⟩ tr =
      walk f mem base k (i + c.length) node ⟨len + c.length, a⟩ tr
  | [], i, len, _, _ => by simp
  | x :: c, i, len, hs, hc => by
    have hx : mem (base + i) ≠ '/' := by
      rw [hs.1]
      exact fun h => hc (h ▸ List.mem_cons_self)
    have ih := walk_name base k node a tr c (i + 1) (len + 1) hs.2 fun h => hc (List.mem_cons_of_mem _ h)
    rw [List.length_cons, show c.length + 1 + k = c.length + k + 1 by omega, walk, if_neg hx, ih,
      show i + 1 + c.length = i + (c.length + 1) by omega,
      show len + 1 + c.length = len + (c.length + 1) by omega]

theorem extract_root (h : Vfs.Stored mem 1 ['/', '/']) :
    checkFilePath mem ⟨2, 1⟩ = true ∧ extractFileName mem ⟨2, 1⟩ = .ok ⟨0, 2⟩ := by
  have h1 : mem 1 = '/' := h.1
  have h2 : mem 2 = '/' := h.2.1
  exact ⟨by simp [checkFilePath, h1, Vfs.maxFilePath], by simp [extractFileName, scanBack, h1, h2, Vfs.maxFilePath]⟩

/-- `//` is its own parent. -/
theorem openParent_root (h : Vfs.Stored mem 1 ['/', '/']) :
    openParent f root false mem ⟨2, 1⟩ = (.ok (root, ⟨0, 2⟩), [.opened root]) := by
  obtain ⟨hcheck, hextract⟩ := extract_root h
  have h2 : mem 2 = '/' := h.2.1
  have happ : isApplicationPath mem ⟨1, 1⟩ = false := by simp [isApplicationPath, h2]
  unfold openParent
  rw [hcheck, hextract]
  simp [handleApplicationPath, happ, walk]

/-- The parent of a component of the root is the root, without a lookup. -/
theorem openParent_first {last : Name} {slash : Bool} (h : Vfs.PathAt mem false [] last slash p) :
    openParent f root false mem p = (.ok (root, ⟨last.length, p.name + 2⟩), [.opened root]) := by
  have happ := h.isApplication 2
  unfold openParent
  rw [h.check, h.extract]
  simp [handleApplicationPath, happ, walk, Vfs.pathHead, Vfs.parentText]

/-- Below it, one lookup answers. -/
theorem openParent_second {c last : Name} {slash : Bool} (h : Vfs.PathAt mem false [c] last slash p) :
    (openParent f root false mem p).1 = match f [.opened root] root c with
      | .error e => .error e
      | .ok m => .ok (m, ⟨last.length, p.name + (2 + (c.length + 1))⟩) := by
  have happ := h.isApplication (2 + (c.length + 1))
  obtain ⟨-, hs, -⟩ := h.parts
  have hs : Vfs.Stored mem (p.name + 2) (c ++ ['/']) := by
    simpa [Vfs.pathHead, Vfs.parentText] using hs
  obtain ⟨hname, hslash⟩ := (Vfs.stored_append _ _ _ _).mp hs
  have hslash : mem (p.name + (2 + c.length)) = '/' := by
    rw [← Nat.add_assoc]
    exact hslash.1
  have hlen : c.length ≠ 0 := fun h0 => h.non_empty c (by simp) (List.eq_nil_of_length_eq_zero h0)
  have htext : DirectoryEntry.text mem ⟨c.length, p.name + 2⟩ = c := Vfs.textAt_stored hname
  have hwalk := walk_name (f := f) p.name 1 root (p.name + 2) [.opened root] c 2 0 hname
    (h.slash_free c (by simp))
  have hstep : walk f mem p.name 1 (2 + c.length) root ⟨c.length, p.name + 2⟩ [.opened root] =
      match find f root c [.opened root] with
      | (.error e, tr) => (.error e, tr ++ [.closed root])
      | (.ok m, tr) =>
        walk f mem p.name 0 (2 + c.length + 1) m ⟨0, p.name + 2 + (c.length + 2)⟩ (tr ++ [.closed root]) := by
    rw [walk, if_pos hslash, if_neg hlen, htext]
  rw [Nat.zero_add, hstep] at hwalk
  have hpre : (Vfs.pathHead false ++ Vfs.parentText [c]).length = 2 + (c.length + 1) := by
    rw [List.length_append, Vfs.pathHead_length]
    simp [Vfs.parentText]
  unfold openParent
  rw [h.check, h.extract, hpre]
  simp only [Bool.not_true, Bool.false_eq_true, if_false, Nat.add_sub_cancel_left, handleApplicationPath, happ]
  rw [hwalk]
  unfold find
  cases f [.opened root] root c with
  | error e => rfl
  | ok m => rfl

end

/-! ## Counting -/

/-- `openReferences` of every node. -/
abbrev Counts := Nat → UInt64

def bump (c : Counts) (n : Nat) : Counts := fun k => if k = n then c k + 1 else c k

def drop (c : Counts) (n : Nat) : Counts := fun k => if k = n then c k - 1 else c k

/-- mirrors kernel/src/fs/IFNode.cpp:21-37 -/
def apply (c : Counts) : RefEv → Counts
  | .opened n => bump c n
  | .closed n => drop c n

def after (tr : List RefEv) (c : Counts) : Counts := tr.foldl apply c

theorem after_concat (tr : List RefEv) (e : RefEv) (c : Counts) :
    after (tr ++ [e]) c = apply (after tr c) e := by
  simp [after]

theorem drop_bump (c : Counts) (n : Nat) : drop (bump c n) n = c := by
  funext k
  unfold drop bump
  by_cases hk : k = n
  · simp only [if_pos hk]
    exact UInt64.add_sub_cancel _ _
  · simp only [if_neg hk]

/-- The child is opened before the parent is closed; they may be the same node. -/
theorem drop_bump_bump (c : Counts) (n m : Nat) : drop (bump (bump c n) m) n = bump c m := by
  funext k
  unfold drop bump
  by_cases hn : k = n
  · by_cases hm : k = m
    · simp only [if_pos hn, if_pos hm]
      exact UInt64.add_sub_cancel _ _
    · simp only [if_pos hn, if_neg hm]
      exact UInt64.add_sub_cancel _ _
  · simp only [if_neg hn]

/-- The references so far: one to `node`. -/
def Holding (tr : List RefEv) (node : Nat) : Prop := ∀ c, after tr c = bump c node

/-- The references so far cancel out. -/
def Released (tr : List RefEv) : Prop := ∀ c, after tr c = c

section
variable {f : Finder} {mem : Nat → Char} {tr : List RefEv} {node : Nat}

theorem Holding.close (h : Holding tr node) : Released (tr ++ [.closed node]) := by
  intro c
  rw [after_concat, h c]
  exact drop_bump c node

/-- `Find` and then `Close` of the node it was asked of. -/
theorem Holding.find_close (h : Holding tr node) (name : Name) :
    match (find f node name tr).1 with
    | .error _ => Released ((find f node name tr).2 ++ [.closed node])
    | .ok m => Holding ((find f node name tr).2 ++ [.closed node]) m := by
  unfold find
  cases f tr node name with
  | error e => exact h.close
  | ok m =>
    intro c
    rw [after_concat, after_concat, h c]
    exact drop_bump_bump c node m

/-- The application path: `Find` fails and the root stays open, or it is closed. -/
def Handled (p : DirectoryEntry) (node : Nat) (r : Response (Nat × DirectoryEntry) × List RefEv) : Prop :=
  match r with
  | (.error _, tr) => Holding tr node
  | (.ok (m, current), tr) => Holding tr m ∧ current.nameLength = 0 ∧ p.name < current.name

theorem Holding.handle (mem : Nat → Char) (h : Holding tr node) (p : DirectoryEntry) :
    Handled p node (handleApplicationPath f mem p node tr) := by
  unfold handleApplicationPath
  split
  · have hfind := h.find_close (f := f) applicationBase
    unfold find at hfind ⊢
    cases hf : f tr node applicationBase with
    | error e => exact h
    | ok m =>
      rw [hf] at hfind
      exact ⟨hfind, rfl, Nat.lt_succ_self _⟩
  · exact ⟨h, rfl, by simp⟩

def Walked (r : Response (Nat × DirectoryEntry) × List RefEv) : Prop :=
  match r with
  | (.error _, tr) => Released tr
  | (.ok (m, current), tr) => Holding tr m ∧ current.nameLength = 0

/-- The walk, over a part of the path that is empty or ends in a `/`. -/
theorem walk_balanced (mem : Nat → Char) (base k : Nat) : ∀ (i node : Nat) (current : DirectoryEntry) (tr : List RefEv),
    Holding tr node → (k = 0 → current.nameLength = 0) → (k ≠ 0 → mem (base + (i + k - 1)) = '/') →
    Walked (walk f mem base k i node current tr) := by
  induction k with
  | zero =>
    intro i node current tr h hempty _
    exact ⟨h, hempty rfl⟩
  | succ k ih =>
    intro i node current tr h _ hslash
    have hlast := hslash (Nat.succ_ne_zero k)
    have hrest : k ≠ 0 → mem (base + (i + 1 + k - 1)) = '/' := by
      intro _
      rw [show i + 1 + k - 1 = i + (k + 1) - 1 by omega]
      exact hlast
    rw [walk]
    split
    · split
      · exact h.close
      · have hfind := h.find_close (f := f) (current.text mem)
        cases hr : find f node (current.text mem) tr with
        | mk r tr' =>
          rw [hr] at hfind
          cases r with
          | error e => exact hfind
          | ok m => exact ih _ _ _ _ hfind (fun _ => rfl) hrest
    · rename_i hne
      -- the last character is a `/`, so this one is not the last
      have hk : k ≠ 0 := by
        rintro rfl
        exact hne hlast
      exact ih _ _ _ _ h (fun h0 => absurd h0 hk) hrest

/-! ## The parent path ends in a slash -/

theorem scanBack_slash (mem : Nat → Char) (lo : Nat) (hlo : mem lo = '/') (hpos : 0 < lo) (q : Nat) : ∀ len, lo ≤ q →
    lo ≤ (scanBack mem lo q len).name ∧ mem (scanBack mem lo q len).name = '/' := by
  induction q with
  | zero =>
    intro len hq
    omega
  | succ q ih =>
    intro len hq
    rw [scanBack]
    split
    · rename_i hgo
      exact ih (len + 1) (by omega)
    · rename_i hstop
      refine ⟨hq, ?_⟩
      by_cases hc : mem (q + 1) = '/'
      · exact hc
      · have hle : ¬ q + 1 > lo := fun hgt => hstop ⟨hc, hgt⟩
        rw [show q + 1 = lo by omega]
        exact hlo

theorem extract_slash {p filename : DirectoryEntry} (hcheck : checkFilePath mem p = true)
    (h : extractFileName mem p = .ok filename) :
    p.name < filename.name ∧ mem (filename.name - 1) = '/' := by
  have hp : p.name ≠ 0 ∧ 2 ≤ p.nameLength ∧ mem p.name = '/' := by
    unfold checkFilePath at hcheck
    simp only [Bool.not_eq_true', Bool.or_eq_false_iff, beq_eq_false_iff_ne, decide_eq_false_iff_not,
      bne_eq_false_iff_eq] at hcheck
    exact ⟨hcheck.1.1.1, by omega, hcheck.2⟩
  obtain ⟨hname, hlen, hfirst⟩ := hp
  unfold extractFileName at h
  split at h
  · cases h
  · simp only at h
    rw [if_neg (by omega)] at h
    have hback := scanBack_slash mem p.name hfirst (by omega)
      (if mem (p.name + p.nameLength - 1) = '/' then p.name + p.nameLength - 1 - 1
        else p.name + p.nameLength - 1) 0 (by split <;> omega)
    rw [if_pos (.inr hfirst)] at h
    cases h
    refine ⟨Nat.lt_succ_of_le hback.1, ?_⟩
    rw [Nat.add_sub_cancel]
    exact hback.2

end

/-! ## The two calls -/

/-- A node that is returned has one reference more, no other count is different. -/
def Balanced (r : Response Nat × List RefEv) : Prop :=
  match r with
  | (.error _, tr) => Released tr
  | (.ok m, tr) => Holding tr m

/-- The node of `OpenParent`'s answer. -/
def parentNode (r : Response (Nat × DirectoryEntry) × List RefEv) : Response Nat × List RefEv :=
  (r.1.map Prod.fst, r.2)

section
variable (f : Finder) (root : Nat) (rootRemoved : Bool) (mem : Nat → Char) (p : DirectoryEntry)

theorem holding_root : Holding [.opened root] root := fun _ => rfl

theorem openParent_balanced : Balanced (parentNode (openParent f root rootRemoved mem p)) := by
  unfold openParent
  split
  · exact fun _ => rfl
  rename_i hcheck
  cases hext : extractFileName mem p with
  | error e => exact fun _ => rfl
  | ok filename =>
    have hc : checkFilePath mem p = true := by
      cases hb : checkFilePath mem p with
      | true => rfl
      | false => exact absurd (by rw [hb]; rfl) hcheck
    obtain ⟨hlt, hslash⟩ := extract_slash hc hext
    dsimp only
    split
    · exact fun _ => rfl
    have hhandle := (holding_root root).handle (f := f) mem ⟨filename.name - p.name, p.name⟩
    cases hr : handleApplicationPath f mem ⟨filename.name - p.name, p.name⟩ root [.opened root] with
    | mk r tr =>
      rw [hr] at hhandle
      cases r with
      | error e => exact hhandle.close
      | ok start =>
        obtain ⟨node, current⟩ := start
        obtain ⟨hhold, hempty, hstart⟩ := hhandle
        dsimp only at hempty hstart ⊢
        have hwalk := walk_balanced (f := f) mem p.name
          (filename.name - p.name - (current.name - p.name)) (current.name - p.name) node current tr hhold
          (fun _ => hempty) (by
            intro hk
            rw [show p.name + (current.name - p.name + (filename.name - p.name - (current.name - p.name)) - 1) =
              filename.name - 1 by omega]
            exact hslash)
        cases hw : walk f mem p.name (filename.name - p.name - (current.name - p.name))
            (current.name - p.name) node current tr with
        | mk r' tr' =>
          rw [hw] at hwalk
          cases r' with
          | error e => exact hwalk
          | ok stop =>
            obtain ⟨node', current'⟩ := stop
            obtain ⟨hhold', hzero⟩ := hwalk
            dsimp only
            rw [if_pos hzero]
            exact hhold'

theorem open_balanced : Balanced (vfsOpen f root rootRemoved mem p) := by
  have hparent := openParent_balanced f root rootRemoved mem p
  unfold vfsOpen
  cases hr : openParent f root rootRemoved mem p with
  | mk r tr =>
    rw [hr] at hparent
    cases r with
    | error e => exact hparent
    | ok parent =>
      obtain ⟨node, filename⟩ := parent
      have hhold : Holding tr node := hparent
      dsimp only
      split
      · exact hhold
      · have hfind := hhold.find_close (f := f) (filename.text mem)
        cases hf : find f node (filename.text mem) tr with
        | mk r' tr' =>
          rw [hf] at hfind
          cases r' with
          | error e => exact hfind
          | ok m => exact hfind

end

/-- For every `Find`, every path and every state of the root: after `OpenParent` or `Open` returns
a node, its count is one higher and every other count is what it was; after an error every count
is what it was. -/
theorem vfs_balanced (f : Finder) (root : Nat) (rootRemoved : Bool) (mem : Nat → Char) (p : DirectoryEntry)
    (c : Counts) :
    (∀ m filename, (openParent f root rootRemoved mem p).1 = .ok (m, filename) →
      after (openParent f root rootRemoved mem p).2 c = bump c m) ∧
    (∀ e, (openParent f root rootRemoved mem p).1 = .error e →
      after (openParent f root rootRemoved mem p).2 c = c) ∧
    (∀ m, (vfsOpen f root rootRemoved mem p).1 = .ok m →
      after (vfsOpen f root rootRemoved mem p).2 c = bump c m) ∧
    ∀ e, (vfsOpen f root rootRemoved mem p).1 = .error e →
      after (vfsOpen f root rootRemoved mem p).2 c = c := by
  have hparent := openParent_balanced f root rootRemoved mem p
  have hopen := open_balanced f root rootRemoved mem p
  unfold Balanced parentNode at hparent
  unfold Balanced at hopen
  refine ⟨fun m filename h => ?_, fun e h => ?_, fun m h => ?_, fun e h => ?_⟩
  · simp only [h, Except.map] at hparent
    exact hparent c
  · simp only [h, Except.map] at hparent
    exact hparent c
  · cases hr : vfsOpen f root rootRemoved mem p with
    | mk r tr =>
      rw [hr] at h hopen
      cases h
      exact hopen c
  · cases hr : vfsOpen f root rootRemoved mem p with
    | mk r tr =>
      rw [hr] at h hopen
      cases h
      exact hopen c

end BadLands.Fs.VfsRefs
