import TieredHart.Engine.Run
import TieredHart.Proofs.CompiledBlocks
import TieredHart.Proofs.Indexing

namespace TieredHart

variable {space : AddressSpace} {pc : Word} {pa : Nat} {block : Block}

theorem Shortcuts.lookup_some {table : Shortcuts} {owned : Nat → Option Block} :
    (table.lookup owned pa).1 = some block ↔ ∃ id, table.slot? (index pa) = some id ∧ owned id = some block ∧
      block.valid = true ∧ block.entryPa = pa := by
  unfold lookup
  cases found : table.slot? (index pa) with
  | none => simp
  | some id =>
    cases known : owned id with
    | none => simp [known]
    | some other =>
      by_cases valid : other.valid = true
      · by_cases here : other.entryPa = pa <;> grind
      · grind

-- Retired blocks are invalid, so a valid one that exists is what the map has at its address.
theorem Cache.block_find {cache : Cache} {id : Nat} (keys : (cache.installed.map (·.entryPa)).Nodup)
    (invalid : ∀ block ∈ cache.retired, block.valid = false) (owned : cache.block? id = some block)
    (valid : block.valid = true) : cache.find? block.entryPa = some block := by
  rcases List.mem_append.mp (List.mem_of_find?_eq_some owned) with installed | retired
  · exact find_member keys installed
  · rw [invalid block retired] at valid
    cases valid

namespace Engine

variable {engine : Engine}

theorem refreshShortcuts_quiet (sound : engine.Sound) :
    Ends refreshShortcuts engine (fun _ after => engine.Quiet after) fun _ _ => False := by
  unfold refreshShortcuts
  rw [ends_modify]
  split
  · exact ⟨.refl sound, rfl⟩
  · exact ⟨sound.recached (.same rfl rfl rfl rfl rfl) rfl rfl, rfl⟩

theorem lookupBlock_find (keys : (engine.cache.installed.map (·.entryPa)).Nodup)
    (invalid : ∀ block ∈ engine.cache.retired, block.valid = false) (pa : Nat) : Ends (lookupBlock pa) engine
      (fun found after => found = engine.cache.find? pa ∧ after.cache.frames = engine.cache.frames) fun _ _ => False := by
  unfold lookupBlock
  rw [ends_modifyGet]
  split
  · rename_i block shortcuts looked
    obtain ⟨id, -, owned, valid, rfl⟩ := Shortcuts.lookup_some.mp (congrArg Prod.fst looked)
    exact ⟨(Cache.block_find keys invalid owned valid).symm, rfl⟩
  · unfold Cache.lookup
    cases engine.cache.find? pa with
    | none => exact ⟨rfl, rfl⟩
    | some block => exact ⟨rfl, rfl⟩

theorem lookupBlock_found (sound : engine.Sound) (pa : Nat) :
    Ends (lookupBlock pa) engine (fun found after => engine.Quiet after ∧
      ∀ block, found = some block → block.entryPa = pa ∧ block ∈ after.cache.installed) fun _ _ => False := by
  unfold lookupBlock
  rw [ends_modifyGet]
  split
  · rename_i block shortcuts looked
    refine ⟨⟨sound.recached (.same rfl rfl rfl rfl rfl) rfl rfl, rfl⟩, ?_⟩
    intro other same
    cases same
    obtain ⟨id, -, owned, valid, entry⟩ := Shortcuts.lookup_some.mp (congrArg Prod.fst looked)
    exact ⟨entry, (Cache.find_some (Cache.block_find sound.cache.keys sound.cache.invalid owned valid)).1⟩
  · unfold Cache.lookup
    cases known : engine.cache.find? pa with
    | none => exact ⟨⟨sound.recached (.same rfl rfl rfl rfl rfl) rfl rfl, rfl⟩, fun _ absent => by cases absent⟩
    | some block =>
      refine ⟨⟨sound.recached (.same rfl rfl rfl rfl rfl) rfl rfl, rfl⟩, ?_⟩
      intro other same
      cases same
      unfold Cache.find? at known
      exact ⟨by simpa using List.find?_some known, List.mem_of_find?_eq_some known⟩

-- A block that is found to be usable is ready to run: in particular its first frame never moved on.
theorem usableBlock_ready (sound : engine.Sound) {hart : Hart} (leads : space.Leads hart.pc pa) :
    Ends (usableBlock space hart.pc pa) engine (fun found after => engine.Quiet after ∧
      ∀ block, found = some block → ∃ code taken maxInsns, block.Ready space ⟨hart, after⟩ pa code taken maxInsns)
      fun _ _ => False := by
  unfold usableBlock
  rw [ends_bind]
  refine (lookupBlock_found sound pa).mono ?_ fun _ _ => False.elim
  rintro found after ⟨quiet, installed⟩
  cases found with
  | none => exact ⟨quiet, nofun⟩
  | some block =>
    obtain ⟨entry, member⟩ := installed block rfl
    have live := quiet.sound.cache.live block member block.stamp.first (List.mem_cons_self ..)
    dsimp only
    rw [ends_bind, ends_get]
    by_cases valid : block.valid = true
    · rw [if_neg (fun dead => dead valid), if_neg (fun moved => moved live), ends_pure]
      refine ⟨quiet, fun other same => ?_⟩
      split at same
      · rename_i usable
        cases same
        refine quiet.sound.ready leads member entry fun page stamped => ?_
        rw [stamped] at usable
        unfold secondUsable at usable
        dsimp only at usable
        split at usable
        · rename_i place found
          exact ⟨place, found, (of_decide_eq_true usable).1⟩
        · cases usable
      · cases same
    · rw [if_pos valid]
      exact ⟨quiet, nofun⟩

theorem offer_waiting {queue after : RequestQueue} {request other : CompileRequest} {answer : Enqueued}
    (offered : queue.offer request = (answer, after)) (member : other ∈ after.waiting) :
    other ∈ queue.waiting ∨ other = request := by
  unfold RequestQueue.offer at offered
  split at offered
  · cases offered
    exact .inl member
  · split at offered
    · cases offered
      rcases List.mem_append.mp member with old | new
      · exact .inl old
      · exact .inr (List.mem_singleton.mp new)
    · cases offered
      exact .inl member

theorem promote_quiet (granular : space.Granular) (sound : engine.Sound) (pc : Word) (pa : Nat) :
    Ends (promote space pc pa) engine (fun _ after => engine.Quiet after) fun _ _ => False := by
  unfold promote
  rw [ends_bind, ends_get]
  by_cases busy : engine.queue.busy pa = true
  · rw [if_pos busy]
    exact ⟨.refl sound, rfl⟩
  rw [if_neg busy]
  cases offered : engine.queue.offer ⟨pa, pc, (space .fetch pc.nextPage).map (·.pa)⟩ with
  | mk answer queue =>
    have queued : engine.Quiet { engine with queue := queue } := by
      refine ⟨⟨⟨sound.framed, sound.cache, ?_⟩, rfl, .refl _⟩, rfl⟩
      intro request member next named
      rcases offer_waiting offered member with old | rfl
      · exact sound.queue request old next named
      · obtain ⟨place, found, rfl⟩ := Option.map_eq_some_iff.mp named
        exact (granular.offset _ _ _ found).trans pc.nextPage_aligned
    dsimp only
    rw [ends_bind, ends_modify]
    cases answer with
    | busy => exact queued
    | sent =>
      have counted := queued.trans (queued.sound.counted fun counts =>
        { counts with compileRequests := counts.compileRequests + 1 })
      exact counted.trans (counted.sound.reported rfl)
    | full =>
      have counted := queued.trans (queued.sound.counted fun counts =>
        { counts with compileDropped := counts.compileDropped + 1 })
      exact counted.trans (counted.sound.reported rfl)

theorem miss_quiet (granular : space.Granular) (sound : engine.Sound) (pc : Word) (pa : Nat) :
    Ends (miss space pc pa) engine (fun _ after => engine.Quiet after) fun _ _ => False := by
  have warm : engine.Quiet { engine with cache := { engine.cache with frames := engine.cache.frames.warm pa } } :=
    ⟨sound.recached (.reframed (.warm pa) (fun f other member => by simpa using member) rfl rfl rfl rfl) rfl rfl, rfl⟩
  unfold miss
  rw [ends_bind, ends_modify, ends_bind, ends_get]
  dsimp only
  split
  · exact (promote_quiet granular warm.sound pc pa).weaken fun _ _ promoted => warm.trans promoted
  · exact warm

theorem restoreFrame_quiet (sound : engine.Sound) (f : Nat) :
    Ends (restoreFrame f) engine (fun _ after => engine.Quiet after) fun _ _ => False := by
  have normal : engine.Quiet
      { engine with cache := { engine.cache with frames := engine.cache.frames.setState f .normal } } :=
    ⟨sound.recached (.reframed (.setState f _) (fun g other member => by simpa using member) rfl rfl rfl rfl) rfl rfl, rfl⟩
  unfold restoreFrame
  rw [ends_bind, ends_modify]
  exact normal.trans (normal.sound.reported rfl)

theorem enterFrame_quiet (sound : engine.Sound) (f : Nat) :
    Ends (enterFrame f) engine (fun _ after => engine.Quiet after) fun _ _ => False := by
  have entered : ∀ {after : Engine}, engine.Quiet after → engine.Quiet { after with fetchFrame := some f } :=
    fun quiet => quiet.trans ⟨quiet.sound.recached (.same rfl rfl rfl rfl rfl) rfl rfl, rfl⟩
  unfold enterFrame
  rw [ends_bind, ends_get]
  cases engine.fetchFrame with
  | none => exact entered ⟨.refl sound, rfl⟩
  | some previous =>
    dsimp only
    split
    · rw [ends_bind]
      exact (restoreFrame_quiet sound previous).weaken fun _ _ restored => entered restored
    · exact entered ⟨.refl sound, rfl⟩

end Engine

namespace LoopM

variable {core : Core Engine}

-- Whichever way a block is run, it is a run of the plain machine.
theorem enterBlock_ran (core : Core Engine) (granular : space.Granular) (fuel : Nat) (sound : core.device.Sound)
    (leads : space.Leads core.hart.pc pa) :
    Ends (enterBlock fuel space core.hart.pc pa) core (fun step after => step.Ran space core after)
      fun failure _ => failure = .outOfFuel ∨ Excused core.device.ram space failure := by
  have interpreted : ∀ {engine : Engine}, core.device.Quiet engine → Ends (runInterpreted space pa) ⟨core.hart, engine⟩
      (fun step after => step.Ran space core after)
      fun failure _ => failure = .outOfFuel ∨ Excused core.device.ram space failure := by
    intro engine quiet
    refine (runInterpreted_ran ⟨core.hart, engine⟩ granular quiet.sound leads).mono ?_ ?_
    · exact fun _ _ ran => ran.prepared quiet rfl
    · exact fun _ _ excused => .inr (excused.earlier quiet.onward.evolves)
  unfold enterBlock
  rw [ends_bind, ends_onEngine]
  refine (Engine.enterFrame_quiet sound (Page.frame pa)).mono ?_ fun _ _ => False.elim
  intro _ entered quiet
  rw [ends_bind, ends_get]
  dsimp only
  split
  · have counted := quiet.sound.counted fun counts => { counts with forcedInterp := counts.forcedInterp + 1 }
    rw [ends_bind, ends_onEngine]
    exact interpreted (quiet.trans counted)
  rw [ends_bind, ends_onEngine]
  refine (Engine.usableBlock_ready quiet.sound leads).mono ?_ fun _ _ => False.elim
  rintro found after ⟨looked, usable⟩
  have settled := quiet.trans looked
  cases found with
  | some block =>
    obtain ⟨code, taken, maxInsns, ready⟩ := usable block rfl
    refine (runCompiled_ran granular fuel ready).mono ?_ ?_
    · exact fun _ _ ran => ran.prepared settled rfl
    · exact fun _ _ => .imp_right fun excused => excused.earlier settled.onward.evolves
  | none =>
    dsimp only
    rw [ends_bind, ends_onEngine]
    refine (Engine.miss_quiet granular settled.sound core.hart.pc pa).mono ?_ fun _ _ => False.elim
    exact fun _ _ missed => interpreted (settled.trans missed)

theorem runNext_ran (granular : space.Granular) (fuel : Nat) (sound : core.device.Sound) {chain : Option Nat}
    (known : ∀ pa, chain = some pa → space.Leads core.hart.pc pa) :
    Ends (runNext fuel space chain) core (fun step after => step.Ran space core after)
      fun failure _ => failure = .outOfFuel ∨ Excused core.device.ram space failure := by
  unfold runNext
  rw [ends_bind, ends_get]
  cases chain with
  | some pa =>
    have counted := sound.counted fun counts => { counts with chained := counts.chained + 1 }
    dsimp only
    rw [ends_bind, ends_onEngine]
    refine (enterBlock_ran ⟨core.hart, _⟩ granular fuel counted.sound (known pa rfl)).mono ?_ ?_
    · exact fun _ _ ran => ran.prepared counted rfl
    · exact fun _ _ => .imp_right fun excused => excused.earlier counted.onward.evolves
  | none =>
    dsimp only
    by_cases odd : core.hart.pc.toNat % 2 = 1
    · rw [if_pos odd]
      exact .fault (.refl sound) (Plain.step_unfetched (Plain.fetch_odd odd))
    · have even : core.hart.pc.toNat % 2 = 0 := by omega
      rw [if_neg odd]
      cases found : space .fetch core.hart.pc with
      | some place => exact enterBlock_ran core granular fuel sound ⟨even, place, found, rfl⟩
      | none => exact .fault (.refl sound) (Plain.step_unfetched (Plain.fetch_unmapped even found))

end LoopM
end TieredHart
