import BadLands.Mm.AddressSpaceTables

/-!
# The teardown of a space that is not finished

`FreeSecondaryRecursiveMapping` on the new space. Slot 0 of the space has the entries of the DMA zone, so the walk of
slot 0 comes to the tables of the current space: it faults, or it passes on a frame that the call did not allocate
(`freeSecondary_foreign`).
-/
namespace BadLands.Mm.AddressSpace

open BadLands.Core BadLands.Core.PageTable BadLands.Core.Script BadLands.Mm.Layout BadLands.Mm.Paging

/-- What the call relies on: the tables of the current root, with the kernel's slot, no large pages in the general
window and the DMA zone at the beginning of slot 0, and frames that are not in use: they are handed out once, they are
no tables, and no page of the lower half is mapped to them. -/
structure SupplyReady (supply : Supply) (m : PhysMem) (root maxPhyAddr : Nat) : Prop where
  tables : Tables m root
  kernel : (m (root + 8 * 256)).Links
  small : ∀ i, i < gpPages → NoLarge m root (generalPage i)
  slot0 : (m root).Links
  dma : (m (m root).frame).Links
  noGiant : (m ((m root).frame + 8)).present = true → (m ((m root).frame + 8)).large = false
  frames : ∀ s p, supply s = some p → GoodPage m root maxPhyAddr p
  unused : ∀ s p, supply s = some p → p ∉ s
  unmapped : ∀ s p a x, supply s = some p → a < 2 ^ 39 → translation m root a = some x →
    ¬ (p.toNat ≤ x ∧ x < p.toNat + 4096)

/-- The call is not one for a frame that `Allocate` hands out. -/
def Foreign (supply : Supply) (c : FreeCall) : Prop := ∀ s p, supply s = some p → c ≠ .free p.toNat

section
variable {supply : Supply} {m₀ m m' : PhysMem} {root maxPhyAddr cr3 first a k u i j : Nat} {answer : Answers}

theorem foreign_table (hs : SupplyReady supply m₀ root maxPhyAddr) (ha : a < 2 ^ 39) (hr : Reach m₀ a 3 root k u) :
    Foreign supply (.free u) := by
  intro s p hp he
  obtain rfl := FreeCall.free.inj he
  exact (hs.frames s p hp).2.unused a k _ (outside_low (by omega)) hr rfl

theorem foreign_page (hs : SupplyReady supply m₀ root maxPhyAddr) (ha : a < 2 ^ 39) (hr : Reach m₀ a 3 root 0 u)
    (hpresent : (m₀ (slot u 0 a)).present = true) : Foreign supply (.free (m₀ (slot u 0 a)).frame) := by
  intro s p hp he
  have hframe := FreeCall.free.inj he
  have htranslation : translation m₀ root a = some ((m₀ (slot u 0 a)).frame + a % 4096) := by
    unfold translation
    rw [if_pos (.inl (by omega)), hr.walk, walk]
    simp only [hpresent, if_true]
  exact hs.unmapped s p a _ hp ha htranslation (by omega)

/-- The PD behind entry `i` of the PDPT of slot 0. -/
theorem reach_low {t : Nat} (hs : SupplyReady supply m₀ root maxPhyAddr) (hi : i < 512) (hj : j < 512) (hk : k < 512)
    (ht : PointsTo (m₀ ((m₀ root).frame + 8 * i)) t) : Reach m₀ (lowAddress i j k) 3 root 1 t := by
  have hlow : lowAddress i j k < 2 ^ 39 := by
    unfold lowAddress
    omega
  exact reach_next (reach_slot0 hlow ⟨hs.slot0, rfl⟩) (lowAddress_indices hi hj hk).2.1 ht

/-- What is passed on for an entry of a PD of the current space. -/
theorem pdeLines_foreign {t : Nat} (hs : SupplyReady supply m₀ root maxPhyAddr) (h : Skeleton m₀ m root cr3 first)
    (hi : i < 512) (hj : j < 512) (ht : PointsTo (m₀ ((m₀ root).frame + 8 * i)) t) :
    ∀ x ∈ pdeLines m (m (t + 8 * j)), Foreign supply x.1 := by
  have hlow : ∀ k, k < 512 → lowAddress i j k < 2 ^ 39 := fun k hk => by
    unfold lowAddress
    omega
  have hentry : m (t + 8 * j) = m₀ (t + 8 * j) := by
    have hsame := h.low _ 1 t (hlow 0 (by decide)) (reach_low hs hi hj (by decide) ht)
    unfold slot at hsame
    rwa [(lowAddress_indices hi hj (show 0 < 512 by decide)).2.2.1] at hsame
  intro x hx
  rw [hentry] at hx
  unfold pdeLines at hx
  split at hx
  · rename_i hp
    split at hx
    · rw [List.mem_singleton.mp hx]
      exact fun _ _ _ he => by cases he
    · rename_i hl
      have hlinks : PointsTo (m₀ (t + 8 * j)) (m₀ (t + 8 * j)).frame := ⟨⟨hp, Bool.not_eq_true _ ▸ hl⟩, rfl⟩
      have hreach : ∀ k, k < 512 → Reach m₀ (lowAddress i j k) 3 root 0 (m₀ (t + 8 * j)).frame := fun k hk =>
        reach_next (reach_low hs hi hj hk ht) (lowAddress_indices hi hj hk).2.2.1 hlinks
      rcases List.mem_append.mp hx with hx | hx
      · obtain ⟨k, hk, hx⟩ := List.mem_flatMap.mp hx
        have hk : k < 512 := by
          rw [List.mem_range'_1] at hk
          omega
        have hslot : slot (m₀ (t + 8 * j)).frame 0 (lowAddress i j k) = (m₀ (t + 8 * j)).frame + 8 * k := by
          unfold slot
          rw [(lowAddress_indices hi hj hk).2.2.2]
        have hsame := h.low _ 0 _ (hlow k hk) (hreach k hk)
        rw [hslot] at hsame
        rw [hsame] at hx
        unfold pteLines at hx
        split at hx
        · rename_i hpage
          rw [List.mem_singleton.mp hx]
          rw [← hslot] at hpage ⊢
          exact foreign_page hs (hlow k hk) (hreach k hk) hpage
        · cases hx
      · rw [List.mem_singleton.mp hx]
        exact foreign_table hs (hlow 0 (by decide)) (hreach 0 (by decide))
  · cases hx

/-- A script of such calls that is not empty makes one of them. -/
theorem run_foreign (answer : Answers) (xs : Lines) (s : List FreeCall) (hxs : ∀ x ∈ xs, Foreign supply x.1)
    (hmade : (run answer xs s).1 = true → xs ≠ []) : ∃ c ∈ (run answer xs s).2, Foreign supply c := by
  obtain ⟨made, h1, h2, h3, h4⟩ := run_extends answer xs s
  have hmem : ∃ c, c ∈ made := by
    cases hok : (run answer xs s).1 with
    | true =>
      rw [h3 hok]
      obtain ⟨x, hx⟩ := List.exists_mem_of_ne_nil _ (hmade hok)
      exact ⟨x.1, List.mem_map_of_mem hx⟩
    | false =>
      obtain ⟨c, hc, -⟩ := h4 hok
      exact ⟨c, hc⟩
  obtain ⟨c, hc⟩ := hmem
  obtain ⟨x, hx, rfl⟩ := List.mem_map.mp (h2 c hc)
  rw [h1]
  exact ⟨x.1, List.mem_append_right _ hc, hxs x hx⟩

/-- The PD of the DMA zone is that of the current space. -/
theorem dma_pd (hs : SupplyReady supply m₀ root maxPhyAddr) (h : Skeleton m₀ m root cr3 first) :
    PointsTo (m first) (m₀ (m₀ root).frame).frame := by
  obtain ⟨hp, hl, hframe⟩ := copy_small hs.dma.2
  have hcopy : m first = setPDPTEInfo (getPDPTEInfo (m₀ (m₀ root).frame)) := h.dma 0 (by decide)
  rw [hcopy]
  exact ⟨⟨hp.trans hs.dma.1, hl⟩, hframe⟩

/-- A walk through that PD that stops has passed on one of its pages. -/
theorem dmaEntries_foreign {made : List FreeCall} (hs : SupplyReady supply m₀ root maxPhyAddr)
    (h : Skeleton m₀ m root cr3 first)
    (hloop : forEach (freePDEntry m root answer ⟨0, 0, 8, 0, 0⟩) 504 8 [] = some (false, made)) :
    ∃ c ∈ made, Foreign supply c := by
  have hpd : PointsTo (m₀ ((m₀ root).frame + 8 * 0)) (m₀ (m₀ root).frame).frame := ⟨hs.dma, rfl⟩
  have hscript : forEach (freePDEntry m root answer ⟨0, 0, 8, 0, 0⟩) 504 8 [] =
      some (run answer ((List.range' 8 504).flatMap fun i =>
        pdeLines m (m ((m₀ (m₀ root).frame).frame + 8 * i))) []) :=
    forEach_run 504 8 [] fun j _ hj s =>
      freePDEntry_spec (a := 0) (b := 0) h.window h.link (dma_pd hs h) (by decide) (by decide) (by omega) s
  have hrun := Option.some.inj (hscript.symm.trans hloop)
  have hmade := run_foreign answer
    ((List.range' 8 504).flatMap fun i => pdeLines m (m ((m₀ (m₀ root).frame).frame + 8 * i))) []
    (fun x hx => by
      obtain ⟨j, hj, hx⟩ := List.mem_flatMap.mp hx
      rw [List.mem_range'_1] at hj
      exact pdeLines_foreign hs h (show 0 < 512 by decide) (by omega) hpd x hx)
    (fun hok => by
      rw [hrun] at hok
      cases hok)
  rwa [hrun] at hmade

/-- The entry behind it, where it is present, is a table of the current space. -/
theorem secondEntry_small (hs : SupplyReady supply m₀ root maxPhyAddr) (h : Skeleton m₀ m root cr3 first)
    (hp : (m (first + 8 * 1)).present = true) :
    (m (first + 8 * 1)).large = false ∧ PointsTo (m₀ ((m₀ root).frame + 8 * 1)) (m (first + 8 * 1)).frame := by
  have hcopy : m (first + 8 * 1) = setPDPTEInfo (getPDPTEInfo (m₀ ((m₀ root).frame + 8 * 1))) := h.dma 1 (by decide)
  cases hl : (m₀ ((m₀ root).frame + 8 * 1)).large with
  | true =>
    rw [hcopy, (copy_large hl).1] at hp
    have hno := hs.noGiant hp
    rw [hl] at hno
    cases hno
  | false =>
    obtain ⟨hpresent, hlarge, hframe⟩ := copy_small hl
    rw [hcopy, hpresent] at hp
    rw [hcopy]
    exact ⟨hlarge, ⟨hp, hl⟩, hframe.symm⟩

/-- Its turn frees the PD of the DMA zone. -/
theorem secondEntry_foreign {made : List FreeCall} {s : List FreeCall} {ok : Bool}
    (hs : SupplyReady supply m₀ root maxPhyAddr) (h : Skeleton m₀ m root cr3 first)
    (hturn : freePDPTEntry m root answer ⟨0, 1, 8, 0, 0⟩ (getPDPTAddress ⟨0, 1, 8, 0, 0⟩ false) s = some (ok, made)) :
    ∃ c ∈ made, Foreign supply c := by
  rw [firstEntry_spec h.window h.link (dma_pd hs h) (show 1 < 512 by decide)
    fun hp => (secondEntry_small hs h hp).1] at hturn
  split at hturn
  · next hp =>
    have hpd : PointsTo (m₀ ((m₀ root).frame + 8 * 0)) (m₀ (m₀ root).frame).frame := ⟨hs.dma, rfl⟩
    have hmade := run_foreign answer
      (pdLines m (m (first + 8 * 1)).frame ++ [(.free (m₀ (m₀ root).frame).frame, true)]) s
      (fun x hx => by
        rcases List.mem_append.mp hx with hx | hx
        · obtain ⟨j, hj, hx⟩ := List.mem_flatMap.mp hx
          rw [List.mem_range'_1] at hj
          exact pdeLines_foreign hs h (show 1 < 512 by decide) (by omega) (secondEntry_small hs h hp).2 x hx
        · rw [List.mem_singleton.mp hx]
          exact foreign_table hs (a := lowAddress 0 0 0) (by decide)
            (reach_low hs (by decide) (by decide) (by decide) hpd))
      (fun _ => List.append_ne_nil_of_right_ne_nil _ (List.cons_ne_nil _ _))
    rwa [Option.some.inj hturn] at hmade
  · cases hturn

/-- The walk faults or passes on a frame of the current space. -/
theorem freeSecondary_foreign {calls : List FreeCall} (hs : SupplyReady supply m₀ root maxPhyAddr)
    (h : Skeleton m₀ m root cr3 first) (hrun : freeSecondaryRecursiveMapping m root answer = some (calls, m')) :
    ∃ c ∈ calls, Foreign supply c := by
  obtain ⟨ok, made, rest, hfirst, rfl⟩ := freeSecondary_first h.window hrun
  suffices hmade : ∃ c ∈ made, Foreign supply c by
    obtain ⟨c, hc, hforeign⟩ := hmade
    exact ⟨c, List.mem_append_left _ hc, hforeign⟩
  have hread : readVirtual m root (getPML4EAddress (parseVirtualAddress recursiveMemoryMapping.start) false) =
      some (m (cr3 + 8 * primaryPml4Index)) := by
    rw [show parseVirtualAddress recursiveMemoryMapping.start = ⟨510, 0, 0, 0, 0⟩ by decide, primaryPml4Index_eq]
    exact read_pml4e h.window (by decide)
  have hpresent : (getPML4EInfo (m (cr3 + 8 * primaryPml4Index))).present = true := (present_iff _).trans h.primary
  unfold freeFirstPML4E at hfirst
  rw [dmaEndMapping_eq] at hfirst
  simp only [Option.bind_eq_bind, hread, Option.bind_some, hpresent, Bool.not_true, Bool.false_eq_true, if_false,
    Option.bind_eq_some_iff] at hfirst
  obtain ⟨⟨ok₁, s₁⟩, hloop, hfirst⟩ := hfirst
  cases ok₁ with
  | false =>
    cases hfirst
    exact dmaEntries_foreign hs h hloop
  | true =>
    have hloop₂ : forEach (fun i => freePDPTEntry m root answer ⟨0, i, 8, 0, 0⟩
        (getPDPTAddress ⟨0, i, 8, 0, 0⟩ false)) (510 + 1) 1 s₁ = some (ok, made) := hfirst
    obtain ⟨ok₂, s₂, hturn, ⟨made₂, rfl⟩, -⟩ := forEach_succ (fun _ _ _ _ => freePDPTEntry_extends) hloop₂
    obtain ⟨c, hc, hforeign⟩ := secondEntry_foreign hs h hturn
    exact ⟨c, List.mem_append_left _ hc, hforeign⟩

end

end BadLands.Mm.AddressSpace
