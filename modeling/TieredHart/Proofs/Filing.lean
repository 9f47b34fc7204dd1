import TieredHart.Proofs.CacheSteps

namespace TieredHart

namespace Lru

variable {entry x : Nat × Nat} {order filed aside : List (Nat × Nat)} {pa tick : Nat}

def Sorted (order : List (Nat × Nat)) : Prop := order.Pairwise fun a b => before a b = true

theorem before_trans {a b c : Nat × Nat} (first : before a b = true) (second : before b c = true) :
    before a c = true := by
  simp only [before, decide_eq_true_eq] at *
  omega

theorem before_total {a b : Nat × Nat} (later : ¬ before a b = true) (differs : a ≠ b) : before b a = true := by
  simp only [before, decide_eq_true_eq, ne_eq, Prod.ext_iff] at *
  omega

theorem mem_insert : x ∈ insert entry order ↔ x = entry ∨ x ∈ order := by
  induction order with
  | nil => simp [insert]
  | cons other rest ih =>
    unfold insert
    split
    · simp
    · split
      · simp_all
      · rw [List.mem_cons, ih, List.mem_cons, or_left_comm]

theorem insert_sorted (sorted : Sorted order) : Sorted (insert entry order) := by
  induction order with
  | nil => simp [insert, Sorted]
  | cons other rest ih =>
    obtain ⟨least, later⟩ := List.pairwise_cons.mp sorted
    unfold insert
    split
    · rename_i first
      refine List.pairwise_cons.mpr ⟨?_, sorted⟩
      intro x member
      rcases List.mem_cons.mp member with rfl | beyond
      · exact first
      · exact before_trans first (least x beyond)
    · split
      · exact sorted
      · rename_i behind differs
        refine List.pairwise_cons.mpr ⟨?_, ih later⟩
        intro x member
        rcases mem_insert.mp member with rfl | beyond
        · exact before_total behind differs
        · exact least x beyond

theorem insert_perm (fresh : entry ∉ order) : (insert entry order).Perm (entry :: order) := by
  induction order with
  | nil => exact .refl _
  | cons other rest ih =>
    have differs : entry ≠ other := fun same => fresh (same ▸ List.mem_cons_self ..)
    have absent : entry ∉ rest := fun there => fresh (List.mem_cons_of_mem _ there)
    unfold insert
    rw [if_neg differs]
    split
    · exact .refl _
    · exact ((ih absent).cons other).trans (.swap ..)

theorem insertAll_perm (distinct : (order ++ aside).Nodup) :
    (aside.foldl (fun lru entry => insert entry lru) order).Perm (order ++ aside) := by
  induction aside generalizing order with
  | nil => simp
  | cons entry rest ih =>
    have fresh : entry ∉ order := fun there =>
      (List.nodup_append.mp distinct).2.2 entry there entry (List.mem_cons_self ..) rfl
    have moved : (insert entry order ++ rest).Perm (order ++ entry :: rest) :=
      ((insert_perm fresh).append_right rest).trans List.perm_middle.symm
    exact (ih (moved.nodup_iff.mpr distinct)).trans moved

theorem insertAll_sorted (sorted : Sorted order) (aside : List (Nat × Nat)) :
    Sorted (aside.foldl (fun lru entry => insert entry lru) order) := by
  induction aside generalizing order with
  | nil => exact sorted
  | cons entry rest ih => exact ih (insert_sorted sorted)

theorem tick_some (keys : (filed.map (·.1)).Nodup) : tick? filed pa = some tick ↔ (pa, tick) ∈ filed := by
  induction filed with
  | nil => simp [tick?]
  | cons entry rest ih =>
    obtain ⟨key, value⟩ := entry
    obtain ⟨fresh, keys⟩ := List.nodup_cons.mp keys
    unfold tick? at ih ⊢
    by_cases here : key = pa
    · subst here
      have absent : (key, tick) ∉ rest := fun there => fresh (List.mem_map.mpr ⟨_, there, rfl⟩)
      simp [absent, eq_comm]
    · rw [List.find?_cons_of_neg (by simpa using here), ih keys]
      simp [Ne.symm here]

theorem tick_isSome : (tick? filed pa).isSome = true ↔ pa ∈ filed.map (·.1) := by
  unfold tick?
  rw [Option.isSome_map, List.find?_isSome]
  simp

theorem mem_forget : x ∈ forget filed pa ↔ x ∈ filed ∧ x.1 ≠ pa := by simp [forget]

theorem forget_perm (keys : (filed.map (·.1)).Nodup) (member : (pa, tick) ∈ filed) :
    filed.Perm ((pa, tick) :: forget filed pa) := by
  induction filed with
  | nil => cases member
  | cons entry rest ih =>
    obtain ⟨fresh, keys⟩ := List.nodup_cons.mp keys
    rcases List.mem_cons.mp member with rfl | later
    · have kept : forget rest pa = rest := by
        refine List.filter_eq_self.mpr fun x there => ?_
        simpa using fun same : x.1 = pa => fresh (List.mem_map.mpr ⟨x, there, same⟩)
      have dropped : forget ((pa, tick) :: rest) pa = forget rest pa := by simp [forget]
      rw [dropped, kept]
    · have differs : entry.1 ≠ pa := fun same => fresh (List.mem_map.mpr ⟨_, later, same.symm⟩)
      have held : forget (entry :: rest) pa = entry :: forget rest pa := by simp [forget, differs]
      rw [held]
      exact ((ih keys later).cons entry).trans (.swap ..)

end Lru

namespace Cache

variable {cache : Cache} {pa : Nat} {block : Block}

-- The order of eviction while some entries are out of it: every installed block is filed under one tick, which may lag
-- behind its last use, and the order holds what is filed and not out.
structure Ordered (cache : Cache) (out lru filed : List (Nat × Nat)) : Prop where
  keys : (filed.map (·.1)).Perm (cache.installed.map (·.entryPa))
  matched : filed.Perm ((out ++ lru).map Prod.swap)
  sorted : Lru.Sorted lru
  lags : ∀ entry ∈ filed, ∀ block, cache.find? entry.1 = some block → entry.2 ≤ block.lastUsed

namespace Ordered

variable {out lru filed : List (Nat × Nat)} {tick : Nat}

theorem mem_iff (ordered : cache.Ordered out lru filed) : (pa, tick) ∈ filed ↔ (tick, pa) ∈ out ++ lru := by
  rw [ordered.matched.mem_iff, List.mem_map]
  constructor
  · rintro ⟨⟨t, p⟩, member, same⟩
    cases same
    exact member
  · exact fun member => ⟨_, member, rfl⟩

theorem distinct (ordered : cache.Ordered out lru filed) (keys : (cache.installed.map (·.entryPa)).Nodup) :
    (filed.map (·.1)).Nodup ∧ (out ++ lru).Nodup := by
  have filedOnce := ordered.keys.nodup_iff.mpr keys
  refine ⟨filedOnce, ?_⟩
  have swapped := ordered.matched.nodup_iff.mp
    (List.Pairwise.of_map _ (fun _ _ apart same => apart (congrArg _ same)) filedOnce)
  exact List.Pairwise.of_map _ (fun _ _ apart same => apart (congrArg _ same)) swapped

theorem installed (ordered : cache.Ordered out lru filed) (member : (tick, pa) ∈ out ++ lru) :
    ∃ block, cache.find? pa = some block := by
  have there : pa ∈ filed.map (·.1) := List.mem_map.mpr ⟨_, ordered.mem_iff.mpr member, rfl⟩
  exact Option.isSome_iff_exists.mp (contains_iff.mpr (ordered.keys.mem_iff.mp there))

theorem forgotten (ordered : cache.Ordered out ((tick, pa) :: lru) filed)
    (keys : (cache.installed.map (·.entryPa)).Nodup) :
    filed.Perm ((pa, tick) :: Lru.forget filed pa) ∧ (Lru.forget filed pa).Perm ((out ++ lru).map Prod.swap) := by
  have member : (pa, tick) ∈ filed := ordered.mem_iff.mpr (List.mem_append_right _ (List.mem_cons_self ..))
  have parted := Lru.forget_perm (ordered.distinct keys).1 member
  have middle : ((out ++ (tick, pa) :: lru).map Prod.swap).Perm ((pa, tick) :: (out ++ lru).map Prod.swap) :=
    List.perm_middle.map Prod.swap
  exact ⟨parted, (parted.symm.trans (ordered.matched.trans middle)).cons_inv⟩

theorem refile (ordered : cache.Ordered out ((tick, pa) :: lru) filed)
    (keys : (cache.installed.map (·.entryPa)).Nodup) (found : cache.find? pa = some block) :
    cache.Ordered out (Lru.insert (block.lastUsed, pa) lru) (Lru.file filed pa block.lastUsed) := by
  obtain ⟨parted, rest⟩ := ordered.forgotten keys
  have fresh : (block.lastUsed, pa) ∉ out ++ lru := by
    intro there
    have filedThere := rest.mem_iff.mpr (List.mem_map.mpr ⟨_, there, rfl⟩)
    exact (Lru.mem_forget.mp filedThere).2 rfl
  have placed := Lru.insert_perm fun there => fresh (List.mem_append_right out there)
  refine ⟨?_, ?_, Lru.insert_sorted (List.pairwise_cons.mp ordered.sorted).2, ?_⟩
  · exact (parted.map (·.1)).symm.trans ordered.keys
  · refine (rest.cons _).trans ?_
    exact ((placed.append_left out).trans List.perm_middle).symm.map Prod.swap
  · intro entry member other there
    rcases List.mem_cons.mp member with rfl | older
    · rw [found] at there
      cases there
      exact Nat.le_refl _
    · exact ordered.lags entry (Lru.mem_forget.mp older).1 other there

end Ordered

-- The search takes its victim out of the order and sets nothing else aside for good.
theorem findVictim_ordered (budget : Nat) (search : Search) (keys : (cache.installed.map (·.entryPa)).Nodup)
    (ordered : cache.Ordered search.aside search.lru search.filed) :
    ∃ out, out.map (·.2) = (findVictim cache budget search).1.toList ∧
      cache.Ordered (out ++ (findVictim cache budget search).2.aside) (findVictim cache budget search).2.lru
        (findVictim cache budget search).2.filed := by
  induction budget generalizing search with
  | zero => exact ⟨[], rfl, ordered⟩
  | succ budget ih =>
    obtain ⟨lru, filed, aside⟩ := search
    unfold findVictim
    cases lru with
    | nil => exact ⟨[], rfl, ordered⟩
    | cons entry rest =>
      obtain ⟨tick, pa⟩ := entry
      obtain ⟨block, found⟩ := ordered.installed (List.mem_append_right _ (List.mem_cons_self ..))
      simp only [found]
      split
      -- Hit since it was filed: it goes back in under its last tick.
      · exact ih _ (ordered.refile keys found)
      · split
        -- In use: it is set aside until the search is over.
        · refine ih _ ⟨ordered.keys, ?_, (List.pairwise_cons.mp ordered.sorted).2, ordered.lags⟩
          simpa using ordered.matched
        · refine ⟨[(tick, pa)], rfl, ordered.keys, ?_, (List.pairwise_cons.mp ordered.sorted).2, ordered.lags⟩
          exact ordered.matched.trans (List.perm_middle.map Prod.swap)

theorem victim_ordered (keys : (cache.installed.map (·.entryPa)).Nodup)
    (ordered : cache.Ordered [] cache.lru cache.filed) :
    ∃ out, out.map (·.2) = (victim cache).1.toList ∧ cache.Ordered out (victim cache).2.lru (victim cache).2.filed := by
  obtain ⟨out, found, left⟩ := findVictim_ordered (2 * cache.filed.length + 1) ⟨cache.lru, cache.filed, []⟩ keys ordered
  refine ⟨out, found, left.keys, left.matched.trans (.map _ ?_), Lru.insertAll_sorted left.sorted _, left.lags⟩
  have distinct := (left.distinct keys).2
  rw [List.append_assoc] at distinct ⊢
  refine .append_left out (List.perm_append_comm.trans ?_)
  exact (Lru.insertAll_perm (List.perm_append_comm.nodup_iff.mp (List.nodup_append.mp distinct).2.1)).symm

end Cache
end TieredHart
