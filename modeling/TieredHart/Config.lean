import TieredHart.Failure

namespace TieredHart

structure Config where
  -- Misses at one address before it is queued for compilation.
  promotionThreshold : Nat := 64
  -- Instructions between two interrupt polls inside compiled code.
  safepointInterval : Nat := 65536
  -- Bytes of host code; when full, least recently used blocks leave.
  codeArenaSize : Nat := 134217728
  -- Requests that may wait; further ones are dropped.
  compileQueueDepth : Nat := 256
  maxBlockInsns : Nat := 512
  backgroundCompile : Bool := true
  deriving DecidableEq

namespace Config

inductive Problem where
  | promotionThreshold (got : Nat)
  | safepointInterval
  | arenaTooSmall (least got : Nat)
  | queueDepth
  | maxBlockInsns (got : Nat)
  deriving DecidableEq

namespace Problem

def name : Problem → String
  | promotionThreshold _ => "PromotionThreshold"
  | safepointInterval => "SafepointInterval"
  | arenaTooSmall _ _ => "ArenaTooSmall"
  | queueDepth => "QueueDepth"
  | maxBlockInsns _ => "MaxBlockInsns"

def message : Problem → String
  | promotionThreshold got => s!"promotion_threshold must be in 1..=65535, got {got}"
  | safepointInterval => "safepoint_interval must be at least 1"
  | arenaTooSmall least got => s!"code_arena_size must be at least {least} bytes, got {got}"
  | queueDepth => "compile_queue_depth must be at least 1"
  | maxBlockInsns got => s!"max_block_insns must be in 1..=4096, got {got}"

def setupMessage (problem : Problem) : String := "invalid configuration: " ++ problem.message

end Problem

def leastArena : Nat := 4096

def problem? (config : Config) : Option Problem :=
  if config.promotionThreshold = 0 ∨ 65535 < config.promotionThreshold then
    some (.promotionThreshold config.promotionThreshold)
  else if config.safepointInterval = 0 then some .safepointInterval
  else if config.codeArenaSize < leastArena then some (.arenaTooSmall leastArena config.codeArenaSize)
  else if config.compileQueueDepth = 0 then some .queueDepth
  else if config.maxBlockInsns = 0 ∨ 4096 < config.maxBlockInsns then some (.maxBlockInsns config.maxBlockInsns)
  else none

def Valid (config : Config) : Prop := config.problem? = none

theorem Valid.safepointInterval {config : Config} (valid : config.Valid) : 0 < config.safepointInterval := by
  unfold Valid problem? at valid
  apply Nat.pos_of_ne_zero
  intro zero
  simp only [zero, if_true] at valid
  split at valid <;> cases valid

theorem Valid.maxBlockInsns {config : Config} (valid : config.Valid) : 0 < config.maxBlockInsns := by
  unfold Valid problem? at valid
  apply Nat.pos_of_ne_zero
  intro zero
  simp only [zero, true_or, if_true] at valid
  repeat' split at valid
  all_goals cases valid

inductive Setting where
  | number (n : Int)
  | flag (b : Bool)
  | other
  deriving DecidableEq

def Setting.below (limit : Nat) : Setting → Option Nat
  | number n => if 0 ≤ n ∧ n < limit then some n.toNat else none
  | _ => none

def Setting.truth : Setting → Option Bool
  | flag b => some b
  | _ => none

inductive Field where
  | promotionThreshold | safepointInterval | codeArenaSize | compileQueueDepth | maxBlockInsns | backgroundCompile
  deriving DecidableEq

def Field.all : List Field :=
  [.promotionThreshold, .safepointInterval, .codeArenaSize, .compileQueueDepth, .maxBlockInsns, .backgroundCompile]

def Field.name : Field → String
  | promotionThreshold => "promotion_threshold"
  | safepointInterval => "safepoint_interval"
  | codeArenaSize => "code_arena_size"
  | compileQueueDepth => "compile_queue_depth"
  | maxBlockInsns => "max_block_insns"
  | backgroundCompile => "background_compile"

-- Thresholds, intervals and instruction caps are 32-bit, sizes and depths 64-bit.
def assign (config : Config) (field : Field) (value : Setting) : Option Config :=
  match field with
  | .promotionThreshold => (value.below (0x100000000)).map fun n => { config with promotionThreshold := n }
  | .safepointInterval => (value.below (0x100000000)).map fun n => { config with safepointInterval := n }
  | .codeArenaSize => (value.below hostLimit).map fun n => { config with codeArenaSize := n }
  | .compileQueueDepth => (value.below hostLimit).map fun n => { config with compileQueueDepth := n }
  | .maxBlockInsns => (value.below (0x100000000)).map fun n => { config with maxBlockInsns := n }
  | .backgroundCompile => value.truth.map fun b => { config with backgroundCompile := b }

def assignAll (config : Config) : List (Field × Setting) → Option Config
  | [] => some config
  | (field, value) :: others => (config.assign field value).bind (assignAll · others)

-- Named settings: unknown names are passed over, fields not named keep their defaults.
def ofNamed? (settings : List (String × Setting)) : Option Config :=
  assignAll {} (settings.filterMap fun (name, value) =>
    (Field.all.find? (·.name == name)).map (·, value))

def ofOrdered? (settings : List Setting) : Option Config :=
  if settings.length ≤ Field.all.length then assignAll {} (Field.all.zip settings) else none

end Config
end TieredHart
