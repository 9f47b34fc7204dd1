import TieredHart.Proofs.Indexing

namespace TieredHart.Cache

variable {cache : Cache} {pa tick : Nat} {block : Block} {out lru filed : List (Nat × Nat)}

def outdated (cache : Cache) (entry : Nat × Nat) : Bool := (cache.find? entry.2).any (·.lastUsed ≠ entry.1)

-- How many looks the rest of the order is worth: one for every entry, and one more to file it again.
def looks (cache : Cache) (lru : List (Nat × Nat)) : Nat := lru.length + lru.countP cache.outdated

theorem looks_le (cache : Cache) (lru : List (Nat × Nat)) : cache.looks lru ≤ 2 * lru.length := by
  have most : lru.countP cache.outdated ≤ lru.length := List.countP_le_length
  unfold looks
  omega

theorem looks_cons (cache : Cache) (entry : Nat × Nat) (lru : List (Nat × Nat)) : cache.looks lru < cache.looks (entry :: lru) := by
  have more : lru.countP cache.outdated ≤ (entry :: lru).countP cache.outdated := by
    rw [List.countP_cons]
    omega
  simp only [looks, List.length_cons]
  omega

theorem looks_refile (found : cache.find? pa = some block) (differs : block.lastUsed ≠ tick)
    (fresh : (block.lastUsed, pa) ∉ lru) :
    cache.looks (Lru.insert (block.lastUsed, pa) lru) < cache.looks ((tick, pa) :: lru) := by
  have placed := Lru.insert_perm fresh
  have before : cache.outdated (tick, pa) = true := by simpa [outdated, found] using differs
  have now : cache.outdated (block.lastUsed, pa) = false := by simp [outdated, found]
  unfold looks
  rw [placed.length_eq, placed.countP_eq, List.countP_cons_of_pos before, List.countP_cons_of_neg (by simp [now])]
  simp only [List.length_cons]
  omega

theorem Ordered.entry (ordered : cache.Ordered out lru filed) (keys : (cache.installed.map (·.entryPa)).Nodup)
    (member : block ∈ cache.installed) : ∃ tick, (tick, block.entryPa) ∈ out ++ lru ∧ tick ≤ block.lastUsed := by
  have there : block.entryPa ∈ filed.map (·.1) := ordered.keys.mem_iff.mpr (List.mem_map.mpr ⟨block, member, rfl⟩)
  obtain ⟨⟨pa, tick⟩, entry, same⟩ := List.mem_map.mp there
  cases same
  exact ⟨tick, ordered.mem_iff.mp entry, ordered.lags _ entry block (find_member keys member)⟩

-- Nothing has referenced the block found, and none such was used before it; or all blocks are referenced.
def Chosen (cache : Cache) : Option Nat → Prop
  | some pa => ∃ block, cache.find? pa = some block ∧ cache.inUse block.id = false ∧
      ∀ other ∈ cache.installed, cache.inUse other.id = false → block.lastUsed ≤ other.lastUsed
  | none => ∀ block ∈ cache.installed, cache.inUse block.id = true

theorem findVictim_chosen (budget : Nat) (search : Search) (keys : (cache.installed.map (·.entryPa)).Nodup)
    (ordered : cache.Ordered search.aside search.lru search.filed)
    (busy : ∀ entry ∈ search.aside, ∀ block, cache.find? entry.2 = some block → cache.inUse block.id = true)
    (enough : cache.looks search.lru < budget) : cache.Chosen (findVictim cache budget search).1 := by
  induction budget generalizing search with
  | zero => exact absurd enough (Nat.not_lt_zero _)
  | succ budget ih =>
    obtain ⟨lru, filed, aside⟩ := search
    dsimp only at ordered busy enough
    unfold findVictim
    cases lru with
    | nil =>
      intro block member
      obtain ⟨tick, there, -⟩ := ordered.entry keys member
      rw [List.append_nil] at there
      exact busy _ there block (find_member keys member)
    | cons entry rest =>
      obtain ⟨tick, pa⟩ := entry
      obtain ⟨block, found⟩ := ordered.installed (List.mem_append_right _ (List.mem_cons_self ..))
      have shorter := cache.looks_cons (tick, pa) rest
      simp only [found]
      split
      · rename_i differs
        have refiled := ordered.refile keys found
        have fresh : (block.lastUsed, pa) ∉ rest := by
          intro there
          have filedThere := (ordered.forgotten keys).2.mem_iff.mpr
            (List.mem_map.mpr ⟨_, List.mem_append_right aside there, rfl⟩)
          exact (Lru.mem_forget.mp filedThere).2 rfl
        have fewer := looks_refile found differs fresh
        exact ih _ refiled busy (by dsimp only; omega)
      · rename_i same
        split
        · rename_i used
          apply ih
          · refine ⟨ordered.keys, ?_, (List.pairwise_cons.mp ordered.sorted).2, ordered.lags⟩
            simpa using ordered.matched
          · intro entry there other here
            rcases List.mem_append.mp there with before | new
            · exact busy entry before other here
            · cases List.mem_singleton.mp new
              rw [found] at here
              cases here
              exact used
          · dsimp only
            omega
        -- The head of the order is as old as it says, and all that is idle stands behind it.
        · rename_i free
          refine ⟨block, found, by simpa using free, fun other member idle => ?_⟩
          obtain ⟨tick', there, lag⟩ := ordered.entry keys member
          rcases List.mem_append.mp there with set | behind
          · rw [busy _ set other (find_member keys member)] at idle
            cases idle
          · rcases List.mem_cons.mp behind with here | later
            · cases here
              omega
            · have order := (List.pairwise_cons.mp ordered.sorted).1 _ later
              simp only [Lru.before, decide_eq_true_eq] at order
              omega

theorem victim_chosen (keys : (cache.installed.map (·.entryPa)).Nodup)
    (ordered : cache.Ordered [] cache.lru cache.filed) : cache.Chosen (victim cache).1 := by
  have length := ordered.matched.length_eq
  have most := cache.looks_le cache.lru
  rw [List.length_map, List.nil_append] at length
  exact findVictim_chosen (2 * cache.filed.length + 1) ⟨cache.lru, cache.filed, []⟩ keys ordered
    (fun _ there => absurd there List.not_mem_nil) (by dsimp only; omega)

-- The installed blocks that nothing outside references, the one to go first at the head.
structure Idle (cache : Cache) (order : List Block) : Prop where
  mem_iff : ∀ block, block ∈ order ↔ block ∈ cache.installed ∧ cache.inUse block.id = false
  sorted : order.Pairwise fun a b => a.lastUsed < b.lastUsed

theorem Idle.length_le {order : List Block} (idle : cache.Idle order) (keys : (cache.installed.map (·.entryPa)).Nodup) :
    order.length ≤ cache.installed.length := by
  have once : cache.installed.Nodup :=
    List.Pairwise.of_map (·.entryPa) (fun _ _ differs same => differs (congrArg _ same)) keys
  have ordered : order.Nodup := by
    refine idle.sorted.imp ?_
    rintro a b before rfl
    exact Nat.lt_irrefl _ before
  have perm : order.Perm (cache.installed.filter fun block => !cache.inUse block.id) := by
    apply (List.perm_ext_iff_of_nodup ordered (once.filter _)).mpr
    intro block
    rw [idle.mem_iff, List.mem_filter, Bool.not_eq_true']
  rw [perm.length_eq]
  exact List.length_filter_le ..

theorem exists_idle (ticks : (cache.installed.map (·.lastUsed)).Nodup) : ∃ order, cache.Idle order := by
  let free := cache.installed.filter fun block => !cache.inUse block.id
  let order := free.mergeSort fun a b => decide (a.lastUsed ≤ b.lastUsed)
  have perm : order.Perm free := List.mergeSort_perm ..
  have distinct : (order.map (·.lastUsed)).Nodup :=
    (perm.map _).nodup_iff.mpr (ticks.sublist (List.filter_sublist.map _))
  have sorted : order.Pairwise fun a b => decide (a.lastUsed ≤ b.lastUsed) = true := by
    apply List.pairwise_mergeSort
    · intro a b c first second
      simp only [decide_eq_true_eq] at *
      omega
    · intro a b
      simp only [Bool.or_eq_true, decide_eq_true_eq]
      omega
  refine ⟨order, fun block => ?_, ?_⟩
  · rw [perm.mem_iff, List.mem_filter, Bool.not_eq_true']
  · refine (sorted.and (List.pairwise_map.mp distinct)).imp ?_
    rintro a b ⟨before, differs⟩
    simp only [decide_eq_true_eq] at before
    omega

theorem Idle.victim {order : List Block} (idle : cache.Idle order) (keys : (cache.installed.map (·.entryPa)).Nodup)
    (ordered : cache.Ordered [] cache.lru cache.filed) : (victim cache).1 = order.head?.map (·.entryPa) := by
  have chosen := victim_chosen keys ordered
  cases found : (Cache.victim cache).1 with
  | none =>
    rw [found] at chosen
    cases order with
    | nil => rfl
    | cons block rest =>
      obtain ⟨member, free⟩ := (idle.mem_iff block).mp (List.mem_cons_self ..)
      rw [chosen block member] at free
      cases free
  | some pa =>
    rw [found] at chosen
    obtain ⟨block, here, free, least⟩ := chosen
    obtain ⟨member, entry⟩ := find_some here
    have there := (idle.mem_iff block).mpr ⟨member, free⟩
    cases order with
    | nil => cases there
    | cons head rest =>
      rcases List.mem_cons.mp there with rfl | behind
      · rw [← entry]
        rfl
      · have later := (List.pairwise_cons.mp idle.sorted).1 block behind
        obtain ⟨headMember, headFree⟩ := (idle.mem_iff head).mp (List.mem_cons_self ..)
        have first := least head headMember headFree
        omega

end TieredHart.Cache
