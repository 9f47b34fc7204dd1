import TieredHart.Proofs.BlockRun
import TieredHart.Proofs.Compilation

namespace TieredHart

namespace Compile

theorem Laid.instruction {code : Array UInt8} {poll interval pageEnd index : Nat} {body : Body} {bytes : List UInt8}
    {micro : MicroOp} (laid : Laid code poll interval body) (scanned : body.Scanned bytes pageEnd) (page : pageEnd ≤ 4096)
    (there : MicroOp.decode? code index = some micro) (runs : micro.kind = .insn ∨ micro.kind = .loopBranch) :
    ∃ (k o : Nat) (insn : Instruction), body.insns[k]? = some (o, insn) ∧ micro.instruction? = some insn ∧
      micro.pcOffset.toNat = o := by
  obtain ⟨k, o, insn, here, -, rfl⟩ := laid.executes there runs
  have line := scanned.line k o insn here
  have starts := line.starts
  exact ⟨k, o, insn, here, ThreadedCode.insnRecord_instruction _ _ (Instruction.decode_legal line.decoded),
    ThreadedCode.insnRecord_offset insn _ _ (by omega)⟩

end Compile

-- The records of a block say what memory says now. Where the last one crosses the page, its upper half stands at the start
-- of the second frame of the stamp, which has to be tracked.
theorem Cache.Sound.current {ram : Ram} {cache : Cache} {block : Block} (sound : cache.Sound ram)
    (member : block ∈ cache.installed)
    (tracked : ∀ page, block.stamp.second = some page → cache.frames.covers page.frame = true) :
    ∃ code, cache.code block = .ok code ∧ ∀ index micro, MicroOp.decode? code index = some micro →
      micro.kind = .insn ∨ micro.kind = .loopBranch → ∃ insn, micro.instruction? = some insn ∧
        ram.Encodes block.stamp.second (block.entryPa + micro.pcOffset.toNat) insn := by
  obtain ⟨code, taken, maxInsns, built⟩ := sound.built member
  refine ⟨code, built.held, ?_⟩
  intro index micro there runs
  have scanned := Body.scan_scanned taken maxInsns
  have page : Page.rest taken.entryPa ≤ 4096 := Nat.sub_le ..
  obtain ⟨poll, interval, laid⟩ := built.laid
  obtain ⟨k, o, insn, line, instruction, rfl⟩ := laid.instruction scanned page there runs
  have live := sound.live block member
  rw [built.stamp] at live tracked ⊢
  rw [built.entryPa]
  exact ⟨insn, instruction, built.tracks.encodes scanned line live tracked⟩

theorem Engine.phases_parts {request : CompileRequest} {engine final : Engine} {block : Block}
    (ran : phases request engine = .ok (.ok block) final) :
    ∃ taken code before middle, capture request engine = .ok (.ok taken) before ∧
      compile taken before = .ok (.ok code) middle ∧ publish code middle = .ok (.ok block) final := by
  unfold phases at ran
  cases captured : capture request engine with
  | error failure other => simp only [bind, EStateM.bind, captured] at ran; cases ran
  | ok answer before =>
    rw [EStateM.bind_ok captured] at ran
    cases answer with
    | error refusal => cases ran
    | ok taken =>
      dsimp only at ran
      cases compiled : compile taken before with
      | error failure other => simp only [bind, EStateM.bind, compiled] at ran; cases ran
      | ok answer middle =>
        rw [EStateM.bind_ok compiled] at ran
        cases answer with
        | error refusal => cases ran
        | ok code => exact ⟨taken, code, before, middle, rfl, compiled, ran⟩

structure Session where
  engine : Engine
  taken : List Snapshot
  codes : List HostCode

namespace Session

-- One operation, run to its answer. Captures, compilations and publications of different requests, stores and the
-- upkeep of the cache come in any order.
inductive Step : Session → Session → Prop where
  | capture {session : Session} {request : CompileRequest} {answer : Except Refusal Snapshot} {engine : Engine}
      (aligned : ∀ next, request.nextPage = some next → next % 4096 = 0)
      (ran : Engine.capture request session.engine = .ok answer engine) :
      Step session ⟨engine, answer.toOption.toList ++ session.taken, session.codes⟩
  | compile {session : Session} {interval maxInsns : Nat} {taken : Snapshot} {answer : Except Refusal HostCode}
      {engine : Engine} (member : taken ∈ session.taken)
      (ran : Engine.compileWith interval maxInsns taken session.engine = .ok answer engine) :
      Step session ⟨engine, session.taken, answer.toOption.toList ++ session.codes⟩
  | publish {session : Session} {code : HostCode} {answer : Except Refusal Block} {engine : Engine}
      (member : code ∈ session.codes) (ran : Engine.publish code session.engine = .ok answer engine) :
      Step session { session with engine := engine }
  | store {session : Session} {pa : Nat} {data : List UInt8} {fetch : Option Nat}
      {answer : Except OutOfRange StoreEffect} {engine : Engine}
      (ran : Engine.store pa data fetch session.engine = .ok answer engine) :
      Step session { session with engine := engine }
  | reserve {session : Session} {size : Nat} {answer : Except Refusal Extent} {engine : Engine}
      (ran : Engine.onCache (Cache.reserve size) session.engine = .ok answer engine) :
      Step session { session with engine := engine }
  | recycle {session : Session} {count : Nat} {engine : Engine}
      (ran : Engine.onCache Cache.recycle session.engine = .ok count engine) :
      Step session { session with engine := engine }
  | lookup {session : Session} (pa : Nat) : Step session { session with
      engine := { session.engine with cache := (session.engine.cache.lookup pa).2 } }
  | markUsed {session : Session} (id : Nat) : Step session { session with
      engine := { session.engine with cache := session.engine.cache.markUsed id } }
  | acquire {session : Session} (id : Nat) : Step session { session with
      engine := { session.engine with cache := session.engine.cache.acquire id } }
  | release {session : Session} (id : Nat) : Step session { session with
      engine := { session.engine with cache := session.engine.cache.release id } }

inductive Reached : Session → Session → Prop where
  | refl {session : Session} : Reached session session
  | step {start session after : Session} (before : Reached start session) (step : Step session after) :
      Reached start after

structure Sound (session : Session) : Prop where
  engine : session.engine.Sound
  taken : ∀ taken ∈ session.taken, taken.Tracks session.engine.ram session.engine.cache.frames
  codes : ∀ code ∈ session.codes, code.Sourced session.engine.ram session.engine.cache.frames

variable {session after : Session}

theorem Sound.evolve (sound : session.Sound) {engine : Engine} (sound' : engine.Sound)
    (evolves : Evolves session.engine.ram session.engine.cache.frames engine.ram engine.cache.frames) :
    Sound { session with engine := engine } :=
  ⟨sound', fun taken member => (sound.taken taken member).evolves sound.engine.framed evolves,
    fun code member => (sound.codes code member).evolves sound.engine.framed evolves⟩

theorem Sound.stay (sound : session.Sound) {engine : Engine} (stays : session.engine.Stays engine) :
    Sound { session with engine := engine } ∧ engine.ram.base = session.engine.ram.base :=
  ⟨sound.evolve stays.sound stays.evolves, by rw [stays.ram]⟩

theorem step_sound (sound : session.Sound) (step : Step session after) :
    after.Sound ∧ after.engine.ram.base = session.engine.ram.base := by
  cases step with
  | capture aligned ran =>
    obtain ⟨rfl, tracked⟩ := (Engine.capture_tracks aligned).answer ran
    refine ⟨⟨sound.engine, ?_, sound.codes⟩, rfl⟩
    intro taken member
    rcases List.mem_append.mp member with new | old
    · rename_i answer
      cases answer with
      | error refusal => cases new
      | ok captured =>
        cases List.mem_singleton.mp new
        exact (tracked _ rfl).2
    · exact sound.taken taken old
  | compile member ran =>
    obtain ⟨stays, sourced⟩ := (Engine.compileWith_stays sound.engine (sound.taken _ member)).answer ran
    obtain ⟨kept, base⟩ := sound.stay stays
    refine ⟨⟨kept.engine, kept.taken, ?_⟩, base⟩
    intro code there
    rcases List.mem_append.mp there with new | old
    · rename_i answer _
      cases answer with
      | error refusal => cases new
      | ok compiled =>
        cases List.mem_singleton.mp new
        exact sourced _ rfl
    · exact kept.codes code old
  | publish member ran =>
    exact sound.stay ((Engine.publish_stays sound.engine (sound.codes _ member)).answer ran)
  | store ran =>
    have stored := (Engine.store_stored sound.engine).answer ran
    exact ⟨sound.evolve stored.sound stored.evolves, stored.evolves.base⟩
  | reserve ran => exact sound.stay ((Engine.reserve_stays sound.engine _).answer ran)
  | recycle ran => exact sound.stay ((Engine.recycle_stays sound.engine).answer ran)
  | lookup pa => exact sound.stay (sound.engine.recached (Cache.lookup_sheds _ pa) rfl rfl)
  | markUsed id => exact sound.stay (sound.engine.recached (Cache.markUsed_sheds _ id) rfl rfl)
  | acquire id => exact sound.stay (sound.engine.recached (.same rfl rfl rfl rfl rfl) rfl rfl)
  | release id => exact sound.stay (sound.engine.recached (.same rfl rfl rfl rfl rfl) rfl rfl)

theorem reached_sound {start : Session} (sound : start.Sound) (reached : Reached start session) :
    session.Sound ∧ session.engine.ram.base = start.engine.ram.base := by
  induction reached with
  | refl => exact ⟨sound, rfl⟩
  | step _ step ih =>
    obtain ⟨before, base⟩ := ih
    obtain ⟨sound', same⟩ := step_sound before step
    exact ⟨sound', same.trans base⟩

-- No stale code, whatever the order of operations: the stamps of an installed block are live, and each of its records that
-- executes holds the instruction that memory has there now.
theorem installed_code_current {config : Config} {ram : Ram} {engine : Engine} (aligned : ram.base % 4096 = 0)
    {host : Host} (built : Engine.setup config ram host = .ok (.ok engine)) (reached : Reached ⟨engine, [], []⟩ session)
    {block : Block} (member : block ∈ session.engine.cache.installed) :
    (∀ page ∈ block.stamp.pages, session.engine.cache.frames.version page.frame = page.version) ∧
    ∃ code, session.engine.cache.code block = .ok code ∧ ∀ index micro, MicroOp.decode? code index = some micro →
      micro.kind = .insn ∨ micro.kind = .loopBranch → ∃ insn, micro.instruction? = some insn ∧
        session.engine.ram.Encodes block.stamp.second (block.entryPa + micro.pcOffset.toNat) insn := by
  obtain ⟨new, memory⟩ := Engine.setup_sound built
  have start : Sound ⟨engine, [], []⟩ := ⟨new, nofun, nofun⟩
  obtain ⟨sound, base⟩ := reached_sound start reached
  have aligned' : session.engine.ram.base % 4096 = 0 := by
    rw [base]
    exact memory ▸ aligned
  have cache := sound.engine.cache
  exact ⟨cache.live block member, cache.current member (cache.second_covered sound.engine.framed aligned' member)⟩

theorem phases_reached {request : CompileRequest} {engine final : Engine} {block : Block} (taken : List Snapshot)
    (codes : List HostCode) (aligned : ∀ next, request.nextPage = some next → next % 4096 = 0)
    (ran : Engine.phases request engine = .ok (.ok block) final) :
    ∃ session, Reached ⟨engine, taken, codes⟩ session ∧ session.engine = final := by
  obtain ⟨snapshot, code, before, middle, captured, compiled, published⟩ := Engine.phases_parts ran
  exact ⟨⟨final, snapshot :: taken, code :: codes⟩, .step (.step (.step .refl (.capture aligned captured))
    (.compile (List.mem_cons_self ..) compiled)) (.publish (List.mem_cons_self ..) published), rfl⟩

-- Memory of one page that ends with a loop of two instructions.
def pageEndLoop : Ram :=
  ⟨4096, ((List.replicate 4092 0 : List UInt8) ++ [0x7d, 0x14, 0x7d, 0xfc]).toArray, by decide +kernel⟩

theorem pageEndLoop_installed : ∃ engine, Engine.setup {} pageEndLoop = .ok (.ok engine) ∧
    ∃ block final, Engine.phases ⟨8188, 0, none⟩ engine = .ok (.ok block) final ∧ block ∈ final.cache.installed := by
  decide +kernel

theorem pageEndLoop_code_current : ∃ engine session block, Engine.setup {} pageEndLoop = .ok (.ok engine) ∧
    Reached ⟨engine, [], []⟩ session ∧ block ∈ session.engine.cache.installed ∧
    (∀ page ∈ block.stamp.pages, session.engine.cache.frames.version page.frame = page.version) ∧
    ∃ code, session.engine.cache.code block = .ok code ∧ ∀ index micro, MicroOp.decode? code index = some micro →
      micro.kind = .insn ∨ micro.kind = .loopBranch → ∃ insn, micro.instruction? = some insn ∧
        session.engine.ram.Encodes block.stamp.second (block.entryPa + micro.pcOffset.toNat) insn := by
  obtain ⟨engine, built, block, final, ran, member⟩ := pageEndLoop_installed
  obtain ⟨session, reached, rfl⟩ := phases_reached [] [] (fun _ absent => by cases absent) ran
  exact ⟨engine, session, block, built, reached, member, installed_code_current rfl built reached member⟩

end Session
end TieredHart
