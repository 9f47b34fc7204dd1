import TieredHart.Proofs.BlockCorrectness

namespace TieredHart

variable {σ : Type}

namespace ThreadedCode

open Compile (since startAt insnAt guarded labelAt insnRecord Laid)

inductive Beat where
  | retired
  | polled (pending : Bool)
  deriving DecidableEq

def Beat.tick (count : Nat) : Beat → Nat
  | retired => count + 1
  | polled _ => 0

def sinceLast (beats : List Beat) : Nat := beats.foldl Beat.tick 0

def retirement : EStateM.Result Failure (Core σ) (Except Fault Flow) → List Beat
  | .ok (.ok _) _ => [.retired]
  | _ => []

def beatsOf (bus : CodeBus σ) (micro : MicroOp) (pc : Word) (cursor : Cursor) (core : Core σ) : List Beat :=
  match micro.kind with
  | .safepoint =>
    if micro.pollAfter ≤ cursor.sincePoll then [.polled (bus.poll (core.atPc pc).hart core.device).1] else []
  | .insn | .loopBranch => micro.instruction?.elim [] fun insn => retirement (execute bus.toBus insn pc core)
  | .exit => []

theorem beatsOf_executes {bus : CodeBus σ} {micro : MicroOp} {insn : Instruction} (kind : micro.Executes)
    (named : micro.instruction? = some insn) (pc : Word) (cursor : Cursor) (core : Core σ) :
    beatsOf bus micro pc cursor core = retirement (execute bus.toBus insn pc core) := by
  unfold beatsOf
  rcases kind with kind | kind <;> rw [kind, named] <;> rfl

def beatsAt (code : Array UInt8) (bus : CodeBus σ) (entry : Entry) (cursor : Cursor) (core : Core σ) : List Beat :=
  (MicroOp.decode? code cursor.index).elim [] fun micro =>
    beatsOf bus micro (entry.pc + BitVec.ofNat 64 micro.pcOffset.toNat) cursor core

def beatsFrom (code : Array UInt8) (bus : CodeBus σ) (entry : Entry) : Nat → Cursor → Core σ → List Beat
  | 0, _, _ => []
  | fuel + 1, cursor, core => beatsAt code bus entry cursor core ++
    thereafter (step code bus entry cursor) core fun progress after =>
      match progress with
      | .further next => beatsFrom code bus entry fuel next after
      | .left _ => []

def beats (fuel : Nat) (code : Array UInt8) (bus : CodeBus σ) (entry : Entry) (core : Core σ) : List Beat :=
  beatsFrom code bus entry fuel ⟨0, 0, 0⟩ core

variable {code : Array UInt8} {interval pageEnd k o : Nat} {body : Body} {bytes : List UInt8} {bus : CodeBus σ}
  {entry : Entry} {core : Core σ} {insn : Instruction} {cursor next : Cursor} {exit : CodeExit} {told : List Beat}

theorem beatsFrom_further {after : Core σ} (ran : step code bus entry cursor core = .ok (.further next) after) (fuel : Nat) :
    beatsFrom code bus entry (fuel + 1) cursor core =
      beatsAt code bus entry cursor core ++ beatsFrom code bus entry fuel next after := by
  rw [beatsFrom, thereafter_ok ran]

theorem beatsFrom_left {after : Core σ} (ran : step code bus entry cursor core = .ok (.left exit) after) (fuel : Nat) :
    beatsFrom code bus entry (fuel + 1) cursor core = beatsAt code bus entry cursor core := by
  rw [beatsFrom, thereafter_ok ran, List.append_nil]

theorem beatsFrom_failed {failure : Failure} {after : Core σ} (failed : step code bus entry cursor core = .error failure after)
    (fuel : Nat) : beatsFrom code bus entry (fuel + 1) cursor core = beatsAt code bus entry cursor core := by
  unfold beatsFrom thereafter
  rw [failed, List.append_nil]

-- All that a record can do to the counts: a safepoint is passed before its time or polls, an instruction retires or not.
inductive Advance (interval : Nat) (body : Body) (k : Nat) (cursor : Cursor) : List Beat → Progress → Prop where
  | passed (inside : k < body.insns.length) (due : guarded body.loopHeader? interval k = true)
      (first : cursor.index + 1 = insnAt body.loopHeader? interval k) (early : cursor.sincePoll < interval) :
      Advance interval body k cursor [] (.further { cursor with index := cursor.index + 1 })
  | polled (inside : k < body.insns.length) (due : guarded body.loopHeader? interval k = true)
      (first : cursor.index + 1 = insnAt body.loopHeader? interval k) :
      Advance interval body k cursor [.polled false] (.further ⟨cursor.index + 1, cursor.insns, 0⟩)
  | interrupted {exit : CodeExit} (insns : exit.insns = cursor.insns) :
      Advance interval body k cursor [.polled true] (.left exit)
  | retired {after : Nat} (inside : k < body.insns.length) (first : cursor.index = insnAt body.loopHeader? interval k)
      (goes : after = k + 1 ∨ body.loopHeader? = some after ∧ after < body.insns.length) :
      Advance interval body k cursor [.retired]
        (.further ⟨startAt body.loopHeader? interval after, cursor.insns + 1, cursor.sincePoll + 1⟩)
  | departed {exit : CodeExit} (inside : k < body.insns.length) (first : cursor.index = insnAt body.loopHeader? interval k)
      (insns : exit.insns = cursor.insns + 1) : Advance interval body k cursor [.retired] (.left exit)
  | stopped {exit : CodeExit} (insns : exit.insns = cursor.insns) : Advance interval body k cursor [] (.left exit)

theorem Polls.advance (inside : k < body.insns.length) (due : guarded body.loopHeader? interval k = true)
    (first : cursor.index + 1 = insnAt body.loopHeader? interval k) {micro : MicroOp} {pc : Word} {progress : Progress}
    {after : Core σ} (kind : micro.kind = .safepoint) (threshold : micro.pollAfter ≤ interval)
    (polls : Polls bus micro pc cursor core progress after) :
    Advance interval body k cursor (beatsOf bus micro pc cursor core) progress := by
  unfold beatsOf
  rw [kind]
  dsimp only
  cases polls with
  | passed early =>
    rw [if_neg (Nat.not_le_of_lt early)]
    exact .passed inside due first (by omega)
  | polled late answer =>
    rw [if_pos late, answer]
    exact .polled inside due first
  | interrupted late answer =>
    rw [if_pos late, answer]
    exact .interrupted rfl

theorem Departs.advance (scanned : body.Scanned bytes pageEnd) (page : pageEnd ≤ 4096)
    (there : body.insns[k]? = some (o, insn)) (first : cursor.index = insnAt body.loopHeader? interval k) {pc : Word}
    {flow : Flow} {progress : Progress} {middle after : Core σ} (departs : Departs bus entry
      (insnRecord (labelAt body.loopHeader? interval (k + 1)) (k + 1 = body.insns.length) o insn) insn pc cursor middle flow
      progress after) : Advance interval body k cursor [.retired] progress := by
  have inside : k < body.insns.length := (List.getElem?_eq_some_iff.mp there).1
  cases departs with
  | asked => exact .departed inside first rfl
  | onward =>
    have onward : startAt body.loopHeader? interval (k + 1) = insnAt body.loopHeader? interval k + 1 :=
      Compile.startAt_succ k
    rw [first, ← onward]
    exact .retired inside first (.inl rfl)
  | looped _ loops =>
    obtain ⟨header, looped, within, -, -, index⟩ := loop_header scanned page there loops
    rw [index]
    exact .retired inside first (.inr ⟨looped, within⟩)
  | jumped => exact .departed inside first rfl

theorem step_advance (laid : Laid code interval interval body) (scanned : body.Scanned bytes pageEnd)
    (page : pageEnd ≤ 4096) (positive : 0 < interval) (ready : Ready interval body k cursor) :
    Ends (step code bus entry cursor) core
      (fun progress _ => Advance interval body k cursor (beatsAt code bus entry cursor core) progress)
      fun failure after => beatsAt code bus entry cursor core = [] ∧ bus.Fails failure after.attached := by
  obtain ⟨micro, record, offset, recorded⟩ := ready.record laid scanned page
  unfold beatsAt
  rw [record, Option.elim_some]
  cases recorded with
  | safepoint inside due first =>
    have threshold := pollAfter_safepoint (max interval 1) (body.offsetAt k)
    rw [step_safepoint record rfl]
    refine stepSafepoint_polls.mono (fun _ _ polls => ?_) fun _ _ impossible => impossible.elim
    exact polls.advance inside due first rfl (by omega)
  | insn there first =>
    rename_i insn
    have legal := Instruction.decode_legal (scanned.line k _ insn there).decoded
    have instruction := insnRecord_instruction (o := body.offsetAt k)
      (labelAt body.loopHeader? interval (k + 1)) (k + 1 = body.insns.length) legal
    rw [step_executes record (insnRecord_kind _ _ _ _), beatsOf_executes (insnRecord_kind _ _ _ _) instruction]
    refine (stepInsn_tries instruction).mono (fun _ _ tries => ?_) fun failure after failed => ?_
    · cases tries with
      | faulted ran =>
        rw [ran]
        exact .stopped rfl
      | retired ran departs =>
        rw [ran]
        exact departs.advance scanned page there first
    · rw [failed]
      exact ⟨rfl, ((execute_executed _ _ _ _).failure failed).fails legal⟩
  | exit ended =>
    rw [step_exit record rfl]
    exact .stopped rfl

-- The longest way since a poll: less than an interval to a safepoint that does not poll, and to the next one behind it.
structure Paced (interval : Nat) (body : Body) (k : Nat) (cursor : Cursor) : Prop extends Ready interval body k cursor where
  bounded : cursor.sincePoll < 2 * interval
  fresh : k < body.insns.length → cursor.index = insnAt body.loopHeader? interval k → cursor.sincePoll <
    interval + if guarded body.loopHeader? interval k then 0 else since body.loopHeader? interval k

theorem Paced.first (positive : 0 < interval) : Paced interval body 0 ⟨0, 0, 0⟩ := by
  refine ⟨.first, ?_, fun _ _ => ?_⟩
  · show 0 < 2 * interval
    omega
  · show 0 < interval + _
    omega

theorem since_succ (header : Option Nat) (interval k : Nat) :
    since header interval (k + 1) = (if guarded header interval k then 0 else since header interval k) + 1 := by
  simp [since, guarded]

theorem since_lt (positive : 0 < interval) (header : Option Nat) (k : Nat) :
    (if guarded header interval k then 0 else since header interval k) < interval := by
  split
  · exact positive
  · rename_i unguarded
    simp only [guarded, decide_eq_true_eq, not_or, Nat.not_le] at unguarded
    exact unguarded.2

theorem Paced.retires (paced : Paced interval body k cursor) (positive : 0 < interval) (inside : k < body.insns.length)
    (first : cursor.index = insnAt body.loopHeader? interval k) : cursor.sincePoll + 1 < 2 * interval := by
  have fresh := paced.fresh inside first
  have near := since_lt positive body.loopHeader? k
  omega

def waits (interval : Nat) (body : Body) (k : Nat) (cursor : Cursor) : Nat :=
  if k < body.insns.length ∧ cursor.index = insnAt body.loopHeader? interval k then 0 else 1

-- What a record spends. Polls give back what has retired since the one before, at most the bound.
structure Spends (interval : Nat) (body : Body) (k after : Nat) (cursor next : Cursor) (told : List Beat) : Prop where
  paced : Paced interval body after next
  insns : next.insns = cursor.insns + told.count .retired
  ticked : told.foldl Beat.tick cursor.sincePoll = next.sincePoll
  shorter : waits interval body after next + 2 * cursor.sincePoll < waits interval body k cursor + 2 * next.sincePoll +
    2 * (told.count (.polled false) * (2 * interval - 1))
  bought : next.insns + cursor.sincePoll ≤
    cursor.insns + next.sincePoll + told.count (.polled false) * (2 * interval - 1)

theorem waits_before (first : cursor.index + 1 = insnAt body.loopHeader? interval k) : waits interval body k cursor = 1 := by
  have apart : cursor.index ≠ insnAt body.loopHeader? interval k := by omega
  simp [waits, apart]

theorem waits_at (inside : k < body.insns.length) (first : cursor.index = insnAt body.loopHeader? interval k) :
    waits interval body k cursor = 0 := by simp [waits, inside, first]

theorem waits_le (interval : Nat) (body : Body) (k : Nat) (cursor : Cursor) : waits interval body k cursor ≤ 1 := by
  unfold waits
  split <;> omega

theorem Advance.spends (advance : Advance interval body k cursor told (.further next)) (positive : 0 < interval)
    (paced : Paced interval body k cursor) : ∃ after, Spends interval body k after cursor next told := by
  have bounded := paced.bounded
  cases advance with
  | passed inside due first early =>
    have before := waits_before first
    have now : waits interval body k { cursor with index := cursor.index + 1 } = 0 := waits_at inside first
    refine ⟨k, ⟨⟨paced.within, .inr ⟨inside, first⟩, paced.polls, paced.begun⟩, bounded, fun _ _ => ?_⟩, rfl, rfl, ?_, ?_⟩
    · rw [if_pos due]
      exact early
    · simp only [List.count_nil]
      omega
    · simp only [List.count_nil]
      omega
  | polled inside due first =>
    have before := waits_before first
    have now : waits interval body k ⟨cursor.index + 1, cursor.insns, 0⟩ = 0 := waits_at inside first
    refine ⟨k, ⟨⟨paced.within, .inr ⟨inside, first⟩, Nat.zero_le _, paced.begun⟩, ?_, fun _ _ => ?_⟩, rfl, rfl, ?_, ?_⟩
    · show 0 < 2 * interval
      omega
    · show 0 < interval + _
      omega
    · simp only [List.count_cons_self, List.count_nil]
      omega
    · simp only [List.count_cons_self, List.count_nil]
      omega
  | @retired after inside first goes =>
    have now := waits_at inside first
    have later := waits_le interval body after
      ⟨startAt body.loopHeader? interval after, cursor.insns + 1, cursor.sincePoll + 1⟩
    have retires := paced.retires positive inside first
    have polls := paced.polls
    have within : after ≤ body.insns.length := by
      rcases goes with rfl | ⟨-, behind⟩ <;> omega
    refine ⟨after, ⟨⟨within, .inl rfl, Nat.succ_le_succ polls, fun zero => absurd zero (Nat.succ_ne_zero _)⟩, retires,
      fun _ index => ?_⟩, rfl, rfl, ?_, ?_⟩
    -- The cursor is before an instruction without a safepoint, so it got there from the one before.
    · have fresh := paced.fresh inside first
      have unguarded : ¬ guarded body.loopHeader? interval after = true := by
        intro due
        simp [insnAt, due] at index
      rcases goes with rfl | ⟨looped, -⟩
      · rw [if_neg unguarded, since_succ]
        show cursor.sincePoll + 1 < _
        omega
      · exact absurd (by simp [guarded, looped]) unguarded
    · simp only [List.count_cons, List.count_nil]
      simp
      omega
    · simp only [List.count_cons, List.count_nil]
      simp
      omega

theorem Advance.leaves (advance : Advance interval body k cursor told (.left exit)) (positive : 0 < interval)
    (paced : Paced interval body k cursor) : exit.insns = cursor.insns + told.count .retired ∧
      cursor.sincePoll + told.count .retired < 2 * interval := by
  have bounded := paced.bounded
  cases advance with
  | interrupted insns => exact ⟨insns, bounded⟩
  | stopped insns => exact ⟨insns, bounded⟩
  | departed inside first insns => exact ⟨insns, paced.retires positive inside first⟩

def Bounded (limit start : Nat) (told : List Beat) : Prop := ∀ n, (told.take n).foldl Beat.tick start < limit

theorem Bounded.nil {limit start : Nat} (low : start < limit) : Bounded limit start [] := by
  intro n
  rw [List.take_nil]
  exact low

theorem Bounded.single {limit start : Nat} {beat : Beat} (low : start < limit) (next : beat.tick start < limit) :
    Bounded limit start [beat] := by
  intro n
  cases n with
  | zero => exact low
  | succ n =>
    rw [List.take_succ_cons, List.take_nil]
    exact next

theorem Bounded.append {limit start : Nat} {later : List Beat} (now : Bounded limit start told)
    (rest : Bounded limit (told.foldl Beat.tick start) later) : Bounded limit start (told ++ later) := by
  intro n
  rw [List.take_append, List.foldl_append]
  rcases Nat.le_total n told.length with short | long
  · rw [Nat.sub_eq_zero_of_le short]
    exact now n
  · rw [List.take_of_length_le long]
    exact rest _

theorem Advance.bounded {progress : Progress} (advance : Advance interval body k cursor told progress) (positive : 0 < interval)
    (paced : Paced interval body k cursor) : Bounded (2 * interval) cursor.sincePoll told := by
  have low := paced.bounded
  cases advance with
  | passed => exact .nil low
  | stopped => exact .nil low
  | polled => exact .single low (by simp only [Beat.tick]; omega)
  | interrupted => exact .single low (by simp only [Beat.tick]; omega)
  | retired inside first => exact .single low (paced.retires positive inside first)
  | departed inside first => exact .single low (paced.retires positive inside first)

section run

variable (laid : Laid code interval interval body) (scanned : body.Scanned bytes pageEnd) (page : pageEnd ≤ 4096)
  (positive : 0 < interval)

include laid scanned page positive

theorem beatsFrom_bounded (fuel : Nat) (paced : Paced interval body k cursor) :
    Bounded (2 * interval) cursor.sincePoll (beatsFrom code bus entry fuel cursor core) := by
  induction fuel generalizing k cursor core with
  | zero => exact .nil paced.bounded
  | succ fuel ih =>
    have advanced : Ends (step code bus entry cursor) core _ _ := step_advance laid scanned page positive paced.toReady
    cases ran : step code bus entry cursor core with
    | error failure after =>
      rw [beatsFrom_failed ran, (advanced.failure ran).1]
      exact .nil paced.bounded
    | ok progress after =>
      have advance := advanced.answer ran
      cases progress with
      | further next =>
        obtain ⟨k', spends⟩ := advance.spends positive paced
        rw [beatsFrom_further ran]
        refine (advance.bounded positive paced).append ?_
        rw [spends.ticked]
        exact ih spends.paced
      | left exit =>
        rw [beatsFrom_left ran]
        exact advance.bounded positive paced

-- With fewer than so many polls left that find nothing, the block is left before the bound times their number is spent.
-- The measure is what may still retire, twice, for a safepoint may stand before every instruction.
theorem runFrom_bounded {polls : Nat} (fuel : Nat) (paced : Paced interval body k cursor)
    (answered : ∀ fuel, (beatsFrom code bus entry fuel cursor core).count (.polled false) < polls)
    (enough : waits interval body k cursor + 2 * (polls * (2 * interval - 1)) < fuel + 2 * cursor.sincePoll) :
    Ends (runFrom code bus entry fuel cursor) core
      (fun exit _ => exit.insns = cursor.insns + (beatsFrom code bus entry fuel cursor core).count .retired ∧
        exit.insns + cursor.sincePoll ≤ cursor.insns + polls * (2 * interval - 1))
      fun failure after => bus.Fails failure after.attached := by
  induction fuel generalizing k cursor core polls with
  | zero =>
    have bounded := paced.bounded
    have one : 2 * interval - 1 ≤ polls * (2 * interval - 1) := Nat.le_mul_of_pos_left _ (Nat.zero_lt_of_lt (answered 0))
    omega
  | succ fuel ih =>
    have advanced : Ends (step code bus entry cursor) core _ _ := step_advance laid scanned page positive paced.toReady
    unfold runFrom
    rw [ends_bind]
    refine .intro (fun progress after ran => ?_) fun failure after ran => (advanced.failure ran).2
    have advance := advanced.answer ran
    cases progress with
    | left exit =>
      have one : 2 * interval - 1 ≤ polls * (2 * interval - 1) :=
        Nat.le_mul_of_pos_left _ (Nat.zero_lt_of_lt (answered 0))
      obtain ⟨insns, spent⟩ := advance.leaves positive paced
      rw [ends_pure, beatsFrom_left ran]
      exact ⟨insns, by omega⟩
    | further next =>
      obtain ⟨k', spends⟩ := advance.spends positive paced
      have shorter := spends.shorter
      have bought := spends.bought
      have insns := spends.insns
      generalize told : beatsAt code bus entry cursor core = beats at *
      have fewer : ∀ fuel, (beatsFrom code bus entry fuel next after).count (.polled false) <
          polls - beats.count (.polled false) := by
        intro fuel
        have all := answered (fuel + 1)
        rw [beatsFrom_further ran, told, List.count_append] at all
        omega
      have parts : polls * (2 * interval - 1) = (polls - beats.count (.polled false)) * (2 * interval - 1) +
          beats.count (.polled false) * (2 * interval - 1) := by
        have spare := fewer 0
        rw [← Nat.add_mul]
        congr 1
        omega
      refine (ih spends.paced fewer (by omega)).weaken ?_
      rintro exit final ⟨counted, low⟩
      rw [beatsFrom_further ran, told, List.count_append]
      omega

end run

-- Compiled code never retires more than twice the interval, less one, between polls or before the first one. So where a
-- poll has to find an interrupt by its so many-th call it is left, or the bus has failed on an aligned access.
theorem run_polls_in_time {config : Config} {taken : Snapshot} {made : HostCode} (valid : config.Valid)
    (compiled : Compile.compile config.safepointInterval config.safepointInterval config.maxBlockInsns taken = .ok (.ok made))
    (bus : CodeBus σ) (entry : Entry) (core : Core σ) :
    (∀ fuel n, sinceLast ((beats fuel made.code bus entry core).take n) ≤ 2 * config.safepointInterval - 1) ∧
      ∀ polls, (∀ fuel, (beats fuel made.code bus entry core).count (.polled false) < polls) →
        ∀ fuel, 2 * (polls * (2 * config.safepointInterval - 1)) + 1 < fuel → Ends (run fuel made.code bus entry) core
          (fun exit _ => exit.insns = (beats fuel made.code bus entry core).count .retired ∧
            exit.insns ≤ polls * (2 * config.safepointInterval - 1))
          fun failure after => bus.Fails failure after.attached := by
  have positive := valid.safepointInterval
  have page : Page.rest taken.entryPa ≤ 4096 := Nat.sub_le ..
  have scanned := Body.scan_scanned taken config.maxBlockInsns
  have laid := Compile.compiled_laid compiled
  refine ⟨fun fuel n => ?_, fun polls answered fuel enough => ?_⟩
  · apply Nat.le_sub_one_of_lt
    exact beatsFrom_bounded laid scanned page positive fuel (.first positive) n
  · have short := waits_le config.safepointInterval (Body.scan taken config.maxBlockInsns) 0 ⟨0, 0, 0⟩
    refine (runFrom_bounded laid scanned page positive fuel (.first positive) answered (by dsimp only; omega)).weaken ?_
    rintro exit _ ⟨counted, low⟩
    exact ⟨counted.trans (Nat.zero_add _), by simpa using low⟩

theorem beatsOf_ringing (always : ∀ hart device, (bus.poll hart device).1 = true) (micro : MicroOp) (pc : Word) :
    .polled false ∉ beatsOf bus micro pc cursor core := by
  have quiet : ∀ result : EStateM.Result Failure (Core σ) (Except Fault Flow), .polled false ∉ retirement result := by
    intro result
    unfold retirement
    split <;> simp
  have executed : .polled false ∉ micro.instruction?.elim [] fun insn => retirement (execute bus.toBus insn pc core) := by
    cases micro.instruction? with
    | none => simp
    | some insn => exact quiet _
  unfold beatsOf
  cases micro.kind with
  | safepoint =>
    dsimp only
    split <;> simp [always]
  | insn => exact executed
  | loopBranch => exact executed
  | exit => simp

theorem beatsFrom_ringing (always : ∀ hart device, (bus.poll hart device).1 = true) (fuel : Nat) :
    .polled false ∉ beatsFrom code bus entry fuel cursor core := by
  induction fuel generalizing cursor core with
  | zero => simp [beatsFrom]
  | succ fuel ih =>
    have now : .polled false ∉ beatsAt code bus entry cursor core := by
      unfold beatsAt
      cases MicroOp.decode? code cursor.index with
      | none => simp
      | some micro => exact beatsOf_ringing always micro _
    cases ran : step code bus entry cursor core with
    | error failure after =>
      rw [beatsFrom_failed ran]
      exact now
    | ok progress after =>
      cases progress with
      | further next =>
        rw [beatsFrom_further ran, List.mem_append, not_or]
        exact ⟨now, ih⟩
      | left exit =>
        rw [beatsFrom_left ran]
        exact now

def ringing : CodeBus Unit := { CodeBus.alarming with poll := fun _ device => (true, device) }

theorem ringing_never_fails (failure : Failure) (t : Attached Unit) : ¬ ringing.Fails failure t := by
  rintro ⟨_, _, _, -, failed | ⟨_, failed⟩⟩ <;> cases failed

theorem endlessLoop_polls_in_time : ∃ made : HostCode, Config.Valid { safepointInterval := 2 } ∧
    Compile.compile 2 2 512 ⟨4092, 0, [0x7d, 0x14, 0xfd, 0xbf], ⟨⟨0, 0⟩, none⟩⟩ = .ok (.ok made) ∧ made.hasLoop = true ∧
    beats 20 made.code ringing ⟨0, 4092⟩ ⟨Hart.reset, ()⟩ = [.retired, .retired, .polled true] ∧
    (∀ fuel, (beats fuel made.code ringing ⟨0, 4092⟩ ⟨Hart.reset, ()⟩).count (.polled false) < 1) ∧
    (∀ fuel n, sinceLast ((beats fuel made.code ringing ⟨0, 4092⟩ ⟨Hart.reset, ()⟩).take n) ≤ 3) ∧
    ∃ exit after, run 20 made.code ringing ⟨0, 4092⟩ ⟨Hart.reset, ()⟩ = .ok exit after ∧
      exit.insns = (beats 20 made.code ringing ⟨0, 4092⟩ ⟨Hart.reset, ()⟩).count .retired ∧ exit.insns ≤ 3 := by
  have computed : ∃ made : HostCode,
      Compile.compile 2 2 512 ⟨4092, 0, [0x7d, 0x14, 0xfd, 0xbf], ⟨⟨0, 0⟩, none⟩⟩ = .ok (.ok made) ∧ made.hasLoop = true ∧
      beats 20 made.code ringing ⟨0, 4092⟩ ⟨Hart.reset, ()⟩ = [.retired, .retired, .polled true] := by
    decide +kernel
  obtain ⟨made, compiled, loops, told⟩ := computed
  have valid : Config.Valid { safepointInterval := 2 } := rfl
  have answered : ∀ fuel, (beats fuel made.code ringing ⟨0, 4092⟩ ⟨Hart.reset, ()⟩).count (.polled false) < 1 := by
    intro fuel
    have never : .polled false ∉ beats fuel made.code ringing ⟨0, 4092⟩ ⟨Hart.reset, ()⟩ :=
      beatsFrom_ringing (fun _ _ => rfl) fuel
    rw [List.count_eq_zero.mpr never]
    exact Nat.one_pos
  obtain ⟨bounded, ends⟩ := run_polls_in_time valid compiled ringing ⟨0, 4092⟩ ⟨Hart.reset, ()⟩
  have left := (ends 1 answered 20 (by decide)).mono (fun _ _ spent => spent) fun _ _ => ringing_never_fails _ _
  exact ⟨made, valid, compiled, loops, told, answered, bounded, left.answers⟩

end ThreadedCode
end TieredHart
