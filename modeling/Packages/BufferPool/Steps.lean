import Packages.Lib.Transition
import Packages.BufferPool.Model

/-!
# Threads on a buffer pool

Any number of threads allocate from one pool, free what they hold and flush their own cache.
A step of a thread is what it does under one lock, or one atomic update of a counter.
-/

namespace Packages.BufferPool

open Function

/-- What a thread does after `ret_buf`: return, go on in `buffer_alloc` with the pool's free list
(`get_local_buf` could not grow a cached header), or go on in `flush_cache`. -/
inductive After where
 | done
 | retry (totsize : Nat)
 | flush (rest : List Nat)
 deriving DecidableEq, Repr

/-- Where a thread is. `cached` says whether the header being grown came from the local cache;
`needed` is the variable of the growing loop. -/
inductive Pc where
 | idle
 /-- about to call `get_blk` -/
 | grow (h : Nat) (needed : Int) (totsize : Nat) (cached : Bool)
 /-- in `get_blk`, past the lock -/
 | gotBlk (h b : Nat) (needed : Int) (totsize : Nat) (cached : Bool)
 /-- about to call `get_buf` -/
 | getBuf (totsize : Nat)
 /-- in `get_buf`, past the lock -/
 | gotBuf (h totsize : Nat)
 /-- in `ret_buf`, in front of the loop or of the buffer lock -/
 | retBuf (h : Nat) (after : After)
 /-- in `ret_blk`, past the lock -/
 | retBlkInc (h : Nat) (after : After)
 /-- in `ret_buf`, past the buffer lock -/
 | retBufInc (after : After)
 deriving DecidableEq, Repr

variable {n : Nat}

/-- A pool with `n` threads on it. -/
structure State (n : Nat) where
 pool : Pool
 cache : Fin n → List Nat
 /-- The headers whose handles the callers hold. -/
 allocated : Nat → Bool
 pc : Fin n → Pc

inductive Action (n : Nat) where
 /-- `buffer_alloc` -/
 | alloc (t : Fin n) (size : Nat)
 /-- `odp_buffer_free` -/
 | free (t : Fin n) (h : Nat)
 /-- `flush_cache` on the thread's own cache -/
 | flush (t : Fin n)
 /-- the next step of a thread inside a call -/
 | step (t : Fin n)
 deriving DecidableEq, Repr

namespace State

def setPc (s : State n) (t : Fin n) (pc : Pc) : State n :=
 { s with pc := update s.pc t pc }

def setCache (s : State n) (t : Fin n) (l : List Nat) : State n :=
 { s with cache := update s.cache t l }

def setPool (s : State n) (p : Pool) : State n := { s with pool := p }

/-- The end of a successful `buffer_alloc`. -/
def succeed (s : State n) (t : Fin n) (h : Nat) : State n :=
 { s with
   pool := s.pool.setHdr h { s.pool.hdr h with allocator := some t }
   allocated := update s.allocated h true
   pc := update s.pc t .idle }

/-- A header in hand: it is large enough, or has to be grown. -/
def fit (s : State n) (t : Fin n) (h totsize : Nat) (cached : Bool) : State n :=
 let size := (s.pool.hdr h).size
 if size < totsize then s.setPc t (.grow h ((totsize : Int)-size) totsize cached)
 else s.succeed t h

/-- `buffer_alloc`, up to its first lock. -/
def alloc (s : State n) (t : Fin n) (size : Nat) : State n :=
 if s.pool.cfg.maxSize < size then s else
  let totsize := size+s.pool.cfg.roomSize
  match s.cache t with
  | h::hs => (s.setCache t hs).fit t h totsize true
  | [] => s.setPc t (.getBuf totsize)

/-- `odp_buffer_free`, up to its first lock. -/
def free (s : State n) (t : Fin n) (h : Nat) : State n :=
 let s := { s with allocated := update s.allocated h false }
 if s.pool.lowWmAssert then s.setPc t (.retBuf h .done) else
  -- ret_local_buf
  { s with
    pool := s.pool.setHdr h { s.pool.hdr h with allocator := none }
    cache := update s.cache t (h::s.cache t) }

/-- The thread goes on after `ret_buf`. -/
def resume (s : State n) (t : Fin n) : After → State n
 | .done | .flush [] => s.setPc t .idle
 | .retry totsize => s.setPc t (.getBuf totsize)
 | .flush (h::hs) => s.setPc t (.retBuf h (.flush hs))

/-- `flush_cache`, up to its first lock. The list is the thread's own until the end of the
call. -/
def flush (s : State n) (t : Fin n) : State n := (s.setCache t []).resume t (.flush (s.cache t))

/-- A step of a thread inside a call. -/
def advance (s : State n) (t : Fin n) : Option (State n) :=
 match s.pc t with
 | .idle => none
 | .grow h needed totsize cached =>
  match s.pool.popBlk with
  | none => some (s.setPc t (.retBuf h (if cached then .retry totsize else .done)))
  | some (b,p) => some ((s.setPool p).setPc t (.gotBlk h b needed totsize cached))
 | .gotBlk h b needed totsize cached =>
  let hdr := { s.pool.hdr h with blks := (s.pool.hdr h).blks++[b] }
  let needed := needed-s.pool.cfg.segSize
  if 0 < needed then
   some ((s.setPool (s.pool.decBlkcount.setHdr h hdr)).setPc t (.grow h needed totsize cached))
  else
   let hdr := { hdr with size := hdr.segcount*s.pool.cfg.segSize }
   some ((s.setPool (s.pool.decBlkcount.setHdr h hdr)).succeed t h)
 | .getBuf totsize =>
  match s.pool.popBuf with
  | none => some (s.setPc t .idle)
  | some (h,p) => some ((s.setPool p).setPc t (.gotBuf h totsize))
 | .gotBuf h totsize => some ((s.setPool s.pool.decBufcount).fit t h totsize false)
 | .retBuf h after =>
  match s.pool.returnsBlks, (s.pool.hdr h).blks.getLast? with
  | true, some b => some ((s.setPool ((s.pool.dropBlk h).pushBlk b)).setPc t (.retBlkInc h after))
  | _, _ => some ((s.setPool (s.pool.pushBuf h)).setPc t (.retBufInc after))
 | .retBlkInc h after => some ((s.setPool s.pool.incBlkcount).setPc t (.retBuf h after))
 | .retBufInc after => some ((s.setPool s.pool.incBufcount).resume t after)

end State

def step (s : State n) : Action n → Option (State n)
 | .alloc t size => if s.pc t = .idle then some (s.alloc t size) else none
 | .free t h => if s.pc t = .idle then some (s.free t h) else none
 | .flush t => if s.pc t = .idle then some (s.flush t) else none
 | .step t => s.advance t

/-- Callers free only handles they hold. -/
def CallerOk (s : State n) : Action n → Prop
 | .free _ h => s.allocated h = true
 | _ => True

instance (s : State n) : ∀ a, Decidable (CallerOk s a)
 | .free _ h => inferInstanceAs (Decidable (s.allocated h = true))
 | .alloc _ _ | .flush _ | .step _ => inferInstanceAs (Decidable True)

/-- A pool just created, nobody inside a call. -/
def State.init (cfg : Config) : State n where
 pool := .create cfg
 cache := fun _ => []
 allocated := fun _ => false
 pc := fun _ => .idle

/-- The states of the runs of a pool with at least one header, made by `odp_pool_create`. -/
abbrev Reachable (stride : PoolType → Nat) (params : PoolParam) : State n → Prop :=
 Transition.Reach
  (fun s => ∃ cfg, poolConfig stride params = some cfg ∧ 0 < cfg.hdrNum ∧ s = .init cfg)
  step CallerOk

/-- No thread is inside a pool operation. -/
def State.Quiet (s : State n) : Prop := ∀ t, s.pc t = .idle

instance (s : State n) : Decidable s.Quiet := inferInstanceAs (Decidable (∀ t, s.pc t = .idle))

end Packages.BufferPool
