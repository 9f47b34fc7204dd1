import TieredHart.Proofs.Stores

namespace TieredHart

structure Engine.Stays (engine after : Engine) : Prop where
  sound : after.Sound
  ram : after.ram = engine.ram
  frames : engine.cache.frames.Alike after.cache.frames

namespace Engine

variable {α : Type} {engine after : Engine}

namespace Stays

theorem refl (sound : engine.Sound) : engine.Stays engine := ⟨sound, rfl, .refl _⟩

theorem trans {middle : Engine} (first : engine.Stays middle) (second : middle.Stays after) : engine.Stays after :=
  ⟨second.sound, second.ram.trans first.ram, first.frames.trans second.frames⟩

theorem evolves (stays : engine.Stays after) :
    Evolves engine.ram engine.cache.frames after.ram after.cache.frames := by
  rw [stays.ram]
  exact .alike stays.frames

end Stays

theorem Sound.recached (sound : engine.Sound) {gone : List Nat} (sheds : Cache.Sheds gone engine.cache after.cache)
    (queue : after.queue.waiting = engine.queue.waiting) (ram : after.ram = engine.ram) : engine.Stays after := by
  refine ⟨⟨?_, ?_, by rw [queue]; exact sound.queue⟩, ram, sheds.frames⟩
  · rw [ram]
    exact sound.framed.alike sheds.frames
  · rw [ram]
    exact sound.cache.sheds sound.framed sheds

theorem ends_onCache {action : EStateM Failure Cache α} {good : α → Engine → Prop} {bad : Failure → Engine → Prop} :
    Ends (onCache action) engine good bad ↔ Ends action engine.cache
      (fun a cache => good a { engine with cache := cache }) fun e cache => bad e { engine with cache := cache } := by
  unfold Ends onCache
  cases action engine.cache <;> rfl

theorem publish_stays (sound : engine.Sound) {code : HostCode} (sourced : code.Sourced engine.ram engine.cache.frames) :
    Ends (publish code) engine (fun _ after => engine.Stays after) fun _ _ => False := by
  unfold publish
  rw [ends_onCache]
  refine (Cache.publish_sound sound.cache sound.framed sourced).weaken ?_
  rintro answer cache ⟨sound', alike⟩
  exact ⟨⟨sound.framed.alike alike, sound', sound.queue⟩, rfl, alike⟩

-- Compilation works on the snapshot alone.
theorem compileWith_stays (sound : engine.Sound) {interval maxInsns : Nat} {taken : Snapshot}
    (tracks : taken.Tracks engine.ram engine.cache.frames) :
    Ends (compileWith interval maxInsns taken) engine (fun answer after => engine.Stays after ∧
      ∀ code, answer = .ok code → code.Sourced after.ram after.cache.frames) fun _ _ => False := by
  unfold compileWith
  rw [ends_bind, ends_get, ends_bind]
  rcases Compile.compile_laid engine.config.safepointInterval interval maxInsns taken with ⟨-, code, compiled, -⟩ | empty
  · rw [compiled, ends_ofExcept_ok]
    refine ⟨sound.recached (.same rfl rfl rfl rfl rfl) rfl rfl, fun other same => ?_⟩
    cases same
    exact ⟨taken, _, _, _, tracks, compiled⟩
  · rw [empty, ends_ofExcept_ok]
    exact ⟨.refl sound, nofun⟩

theorem reserve_stays (sound : engine.Sound) (size : Nat) :
    Ends (onCache (Cache.reserve size)) engine (fun _ after => engine.Stays after)
      fun _ _ => hostLimit ≤ max size 1 + 16 := by
  rw [ends_onCache]
  refine (Cache.reserve_reserved sound.cache.toOrderly).weaken ?_
  rintro answer cache ⟨orderly, inside, -⟩
  exact ⟨⟨sound.framed.alike inside.frames, ⟨orderly, inside.backed sound.cache.backed sound.framed⟩, sound.queue⟩, rfl,
    inside.frames⟩

theorem recycle_stays (sound : engine.Sound) :
    Ends (onCache Cache.recycle) engine (fun _ after => engine.Stays after) fun _ _ => False := by
  rw [ends_onCache]
  refine (Cache.recycle_orderly sound.cache.toOrderly).weaken ?_
  rintro answer cache ⟨orderly, inside⟩
  exact ⟨⟨sound.framed.alike inside.frames, ⟨orderly, inside.backed sound.cache.backed sound.framed⟩, sound.queue⟩, rfl,
    inside.frames⟩

theorem phases_stays (sound : engine.Sound) {request : CompileRequest}
    (aligned : ∀ next, request.nextPage = some next → next % 4096 = 0) :
    Ends (phases request) engine (fun _ after => engine.Stays after) fun _ _ => ¬ engine.ram.Fits := by
  unfold phases
  rw [ends_bind]
  refine (capture_tracks aligned).mono ?_ fun _ _ failed => failed.2
  rintro answer _ ⟨rfl, tracked⟩
  cases answer with
  | error refusal => exact .refl sound
  | ok taken =>
    unfold compile
    simp only [ends_bind, ends_get]
    refine (compileWith_stays sound (tracked taken rfl).2).mono ?_ fun _ _ => False.elim
    rintro answer middle ⟨stays, sourced⟩
    cases answer with
    | error refusal => exact stays
    | ok code =>
      refine (publish_stays stays.sound (sourced code rfl)).mono ?_ fun _ _ => False.elim
      intro _ after settled
      exact stays.trans settled

theorem fulfil_stays (sound : engine.Sound) {request : CompileRequest}
    (aligned : ∀ next, request.nextPage = some next → next % 4096 = 0) :
    Ends (fulfil request) engine (fun _ after => engine.Stays after) fun _ _ => ¬ engine.ram.Fits := by
  unfold fulfil
  rw [ends_bind]
  refine (phases_stays sound aligned).weaken ?_
  intro answer middle stays
  rw [ends_bind, ends_modify]
  cases answer with
  | ok block => exact stays.trans (stays.sound.recached (.same rfl rfl rfl rfl rfl) rfl rfl)
  | error refusal => exact stays.trans (stays.sound.recached (.same rfl rfl rfl rfl rfl) rfl rfl)

theorem fulfilFrom_stays (sound : engine.Sound) (more : Nat) :
    Ends (fulfilFrom more) engine (fun _ after => engine.Stays after) fun _ _ => ¬ engine.ram.Fits := by
  induction more generalizing engine with
  | zero => exact .refl sound
  | succ more ih =>
    unfold fulfilFrom RequestQueue.receive?
    rw [ends_bind, ends_get]
    cases waiting : engine.queue.waiting with
    | nil => exact .refl sound
    | cons request rest =>
      have aligned := sound.queue
      rw [waiting] at aligned
      have received : engine.Stays { engine with queue := { engine.queue with waiting := rest } } :=
        ⟨⟨sound.framed, sound.cache, fun other member => aligned other (List.mem_cons_of_mem _ member)⟩, rfl, .refl _⟩
      simp only [ends_bind, ends_modify]
      refine (fulfil_stays received.sound (aligned request (List.mem_cons_self ..))).weaken ?_
      intro answer middle stays
      refine (ih stays.sound).mono ?_ ?_
      · intro count after rest
        exact (received.trans stays).trans rest
      · intro _ _ unfit
        rwa [stays.ram] at unfit

theorem fulfilAll_stays (sound : engine.Sound) :
    Ends fulfilAll engine (fun _ after => engine.Stays after) fun _ _ => ¬ engine.ram.Fits := by
  unfold fulfilAll
  rw [ends_bind, ends_get]
  exact fulfilFrom_stays sound _

theorem roundUp_whole {unit size rounded : Nat} (positive : 0 < unit) (done : checkedRoundUp unit size = .ok rounded) :
    rounded < hostLimit ∧ rounded % unit = 0 := by
  unfold checkedRoundUp checkedAdd at done
  split at done
  · rename_i fits
    cases done
    have below := Nat.div_mul_le_self (size + unit - 1) unit
    refine ⟨?_, Nat.mul_mod_left ..⟩
    omega
  · cases done

theorem map_whole {host : Host} {size : Nat} {arena : Arena} (mapped : Arena.map? size host = .ok (some arena)) :
    arena.capacity < hostLimit ∧ arena.capacity % 4096 = 0 := by
  unfold Arena.map? at mapped
  cases rounded : checkedRoundUp Page.size size with
  | error failure => rw [rounded] at mapped; cases mapped
  | ok capacity =>
    rw [rounded] at mapped
    by_cases refused : capacity = 0 ∨ host.mapLimit < capacity
    · simp only [bind, Except.bind, if_pos refused] at mapped
      cases mapped
    · simp only [bind, Except.bind, if_neg refused] at mapped
      cases mapped
      exact roundUp_whole (by decide) rounded

theorem ofArena_sound {arena : Arena} (bounded : arena.capacity < hostLimit) (ram : Ram) (base pages threshold : Nat) :
    (Cache.ofArena arena base pages threshold).Sound ram := by
  refine ⟨⟨List.nodup_nil, nofun, ExtentPool.ofCapacity_wellFormed _, ?_, nofun, ⟨?_, bounded⟩, nofun, nofun⟩, nofun⟩
  · intro i
    show ExtentPool.cover (ExtentPool.ofCapacity arena.capacity).free i + 0 ≤ 1
    unfold ExtentPool.ofCapacity
    dsimp only
    split
    · exact Nat.zero_le _
    · rw [ExtentPool.cover_single_eq]
      split <;> omega
  · show arena.capacity / 16 * 16 ≤ arena.capacity
    omega

theorem setup_parts {host : Host} {config : Config} {ram : Ram} (built : setup config ram host = .ok (.ok engine)) :
    ∃ arena event, Arena.map? config.codeArenaSize host = .ok (some arena) ∧ engine.queue.waiting = [] ∧
      engine.ram = ram ∧ engine.counts = {} ∧ engine.cache =
        (Cache.ofArena arena ram.baseFrame ram.pages config.promotionThreshold).report event := by
  unfold setup at built
  cases problem : config.problem? with
  | some other => rw [problem] at built; cases built
  | none =>
    rw [problem] at built
    cases mapped : Arena.map? config.codeArenaSize host with
    | error failure => rw [mapped] at built; cases built
    | ok found =>
      rw [mapped] at built
      cases found with
      | none => cases built
      | some arena =>
        cases made : RequestQueue.ofDepth config.compileQueueDepth host with
        | error failure => simp only [made] at built; cases built
        | ok queue =>
          have waiting : queue.waiting = [] := by
            unfold RequestQueue.ofDepth at made
            cases room : checkAllocation (host.slotBytes * max config.compileQueueDepth 1) with
            | error failure => rw [room] at made; cases made
            | ok _ => rw [room] at made; cases made; rfl
          simp only [made] at built
          cases built
          exact ⟨arena, _, rfl, waiting, rfl, rfl, rfl⟩

theorem setup_sound {host : Host} {config : Config} {ram : Ram} (built : setup config ram host = .ok (.ok engine)) :
    engine.Sound ∧ engine.ram = ram := by
  obtain ⟨arena, event, mapped, waiting, memory, -, cache⟩ := setup_parts built
  have sound := ofArena_sound (map_whole mapped).1 ram ram.baseFrame ram.pages config.promotionThreshold
  have framed : ram.Framed (FrameTable.fresh ram.baseFrame ram.pages) := ⟨rfl, by simp [FrameTable.fresh]⟩
  refine ⟨⟨?_, ?_, ?_⟩, memory⟩
  · rw [memory, cache]
    exact framed
  · rw [memory, cache]
    exact sound.sheds framed (.same rfl rfl rfl rfl rfl)
  · rw [waiting]
    exact nofun

end Engine
end TieredHart
