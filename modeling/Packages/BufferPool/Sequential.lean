import Packages.BufferPool.Conservation

/-!
# Pool calls as functions

`buffer_alloc` and `odp_buffer_free` as one thread sees them when it is not interrupted. Each is
a run of the thread through its steps, so what holds of all runs of the pool holds of them.
-/

namespace Packages.BufferPool

open Function State Pool List

variable {n : Nat}

namespace Pool

/-- The loop that grows header `h` by `needed` bytes. Each round takes a block off the free list,
so `fuel` above its length is never used up. -/
def growLoop (h : Nat) : Nat → Pool → Int → Bool × Pool
 | 0, p, _ => (false,p)
 | fuel+1, p, needed =>
  match p.getBlk with
  | none => (false,p)
  | some (b,p) =>
   let hdr := { p.hdr h with blks := (p.hdr h).blks++[b] }
   let needed := needed-p.cfg.segSize
   if 0 < needed then growLoop h fuel (p.setHdr h hdr) needed
   else (true,p.setHdr h { hdr with size := hdr.segcount*p.cfg.segSize })

def grow (p : Pool) (h totsize : Nat) : Bool × Pool :=
 if (p.hdr h).size < totsize
 then p.growLoop h (p.blkFree.length+1) ((totsize : Int)-(p.hdr h).size) else (true,p)

end Pool

namespace State

/-- A header in hand is grown, or returned if there are too few blocks. -/
def tryGrow (s : State n) (h totsize : Nat) : Option Nat × State n :=
 match s.pool.grow h totsize with
 | (true,p) => (some h,s.setPool p)
 | (false,p) => (none,s.setPool (p.retBuf h))

def getLocalBuf (s : State n) (t : Fin n) (totsize : Nat) : Option Nat × State n :=
 match s.cache t with
 | [] => (none,s)
 | h::hs => (s.setCache t hs).tryGrow h totsize

/-- The part of `buffer_alloc` that turns to the pool. -/
def getPoolBuf (s : State n) (totsize : Nat) : Option Nat × State n :=
 match s.pool.getBuf with
 | none => (none,s)
 | some (h,p) => (s.setPool p).tryGrow h totsize

/-- The header is marked as allocated. -/
def give (s : State n) (t : Fin n) (h : Nat) : State n :=
 { s with
   pool := s.pool.setHdr h { s.pool.hdr h with allocator := some t }
   allocated := update s.allocated h true }

def bufferAlloc (s : State n) (t : Fin n) (size : Nat) : Option Nat × State n :=
 if s.pool.cfg.maxSize < size then (none,s) else
  let totsize := size+s.pool.cfg.roomSize
  match s.getLocalBuf t totsize with
  | (some h,s) => (some h,s.give t h)
  | (none,s) =>
   match s.getPoolBuf totsize with
   | (some h,s) => (some h,s.give t h)
   | (none,s) => (none,s)

def bufferAllocMulti (t : Fin n) (size : Nat) : Nat → State n → List Nat × State n
 | 0, s => ([],s)
 | num+1, s =>
  match s.bufferAlloc t size with
  | (none,s) => ([],s)
  | (some h,s) =>
   let r := bufferAllocMulti t size num s
   (h::r.1,r.2)

def bufferFree (s : State n) (t : Fin n) (h : Nat) : State n :=
 let s := { s with allocated := update s.allocated h false }
 if s.pool.lowWmAssert then s.setPool (s.pool.retBuf h) else
  -- ret_local_buf
  { s with
    pool := s.pool.setHdr h { s.pool.hdr h with allocator := none }
    cache := update s.cache t (h::s.cache t) }

end State

attribute [local simp] setPc setPool setHdr succeed decBlkcount
 pushBlk dropBlk popBlk getBlk

lemma Pool.hdr_of_popBlk {p q : Pool} {b : Nat} (h : p.popBlk = some (b,q)) : q.hdr = p.hdr := by
 unfold popBlk at h
 split at h <;> simp_all
 exact h.2 ▸ rfl

variable {x : Nat}

lemma Pool.hdr_of_popBuf {p q : Pool} (h : p.popBuf = some (x,q)) : q.hdr = p.hdr := by
 unfold popBuf at h
 split at h <;> simp_all
 exact h.2 ▸ rfl

/-- Thread `t` runs on its own. -/
abbrev Runs (t : Fin n) : State n → State n → Prop :=
 Relation.ReflTransGen fun s s' => s.advance t = some s'

section Runs

variable {s s' : State n} {t : Fin n} {h : Nat}

lemma Inv.runs (hi : Inv s) (hr : Runs t s s') : Inv s' := by
 induction hr with
 | refl => exact hi
 | tail _ hs ih => exact ih.advance hs

lemma Reachable.runs {stride : PoolType → Nat} {params : PoolParam} (h : Reachable stride params s)
 (hr : Runs t s s') : Reachable stride params s' := by
 induction hr with
 | refl => exact h
 | tail _ hs ih => exact .next (a := .step t) ih trivial hs

lemma fit_allocated (totsize : Nat) (cached : Bool) (hxh : x ≠ h)
 (hx : s.allocated x = true) : (s.fit t h totsize cached).allocated x = true ∧
  (s.fit t h totsize cached).pool.hdr x = s.pool.hdr x := by
 simp only [fit]
 split_ifs <;> simp [hxh,hx]

lemma Inv.advance_allocated (hi : Inv s) (hx : s.allocated x = true)
 (hs : s.advance t = some s') : s'.allocated x = true ∧ s'.pool.hdr x = s.pool.hdr x := by
 have hne : ∀ y ∈ (s.pc t).hdrs, x ≠ y := by
  rintro y hy rfl
  simp [hands_not_allocated hi.hdrs hy] at hx
 cases hpc : s.pc t
 all_goals simp only [State.advance,hpc] at hs
 case idle => cases hs
 case grow h needed totsize cached =>
  split at hs <;> cases hs
  · exact ⟨hx,rfl⟩
  · next heq => exact ⟨hx,congrFun (hdr_of_popBlk heq) x⟩
 case gotBlk h b needed totsize cached =>
  have hxh := hne h (by simp [hpc,Pc.hdrs])
  split at hs <;> obtain rfl := Option.some.inj hs <;> simp [hxh,hx]
 case getBuf totsize =>
  split at hs <;> cases hs
  · exact ⟨hx,rfl⟩
  · next heq => exact ⟨hx,congrFun (hdr_of_popBuf heq) x⟩
 case gotBuf h totsize =>
  cases hs
  exact fit_allocated totsize false (hne h (by simp [hpc,Pc.hdrs])) hx
 case retBuf h after =>
  have hxh := hne h (by simp [hpc,Pc.hdrs])
  split at hs <;> obtain rfl := Option.some.inj hs <;> simp [pushBuf,hxh,hx]
 case retBlkInc h after =>
  cases hs
  exact ⟨hx,rfl⟩
 case retBufInc after =>
  cases hs
  obtain _ | _ | _ | _ := after <;> exact ⟨hx,rfl⟩

lemma Inv.runs_allocated (hi : Inv s) (hx : s.allocated x = true)
 (hr : Runs t s s') : s'.allocated x = true ∧ s'.pool.hdr x = s.pool.hdr x := by
 induction hr with
 | refl => exact ⟨hx,rfl⟩
 | tail hr hs ih =>
  obtain ⟨h1,h2⟩ := (hi.runs hr).advance_allocated ih.1 hs
  exact ⟨h1,h2.trans ih.2⟩

-- The calls are runs

lemma setPc_eq_self (pc : Pc) (hpc : s.pc t = pc) : s.setPc t pc = s := by
 subst hpc
 simp

lemma succeed_eq (s : State n) (t : Fin n) (h : Nat) : s.succeed t h = (s.give t h).setPc t .idle :=
 rfl

lemma retBlks_hdr (p : Pool) (h : Nat) (l : List Nat) (hblks : (p.hdr h).blks = l.reverse) :
 ((p.retBlks h l).hdr h).blks = [] := by
 induction l generalizing p with
 | nil => exact hblks
 | cons b l ih =>
  refine ih _ ?_
  simp [retBlk,incBlkcount,hblks]

lemma runs_retBlks {after : After} (l : List Nat) (s : State n) (hpc : s.pc t = .retBuf h after)
 (hret : s.pool.returnsBlks = true) (hblks : (s.pool.hdr h).blks = l.reverse) :
 Runs t s (s.setPool (s.pool.retBlks h l)) := by
 induction l generalizing s with
 | nil => exact .refl
 | cons b l ih =>
  have hlast : (s.pool.hdr h).blks.getLast? = some b := by simp [hblks]
  let mid := (s.setPool ((s.pool.dropBlk h).pushBlk b)).setPc t (.retBlkInc h after)
  have h1 : s.advance t = some mid := by simp [advance,hpc,hret,hlast,mid]
  have h2 : mid.advance t = some (s.setPool ((s.pool.dropBlk h).retBlk b)) := by
   simp only [advance,mid,setPc,setPool,update_self,update_idem,retBlk]
   rw [← hpc,update_eq_self]
  refine .head h1 (.head h2 (ih (s.setPool ((s.pool.dropBlk h).retBlk b)) hpc hret ?_))
  simp [retBlk,incBlkcount,hblks]

lemma runs_retBuf (a : After) (hpc : s.pc t = .retBuf h a) :
 Runs t s ((s.setPool (s.pool.retBuf h)).resume t a) := by
 -- the header itself, once its blocks are gone or stay with it
 have hend : ∀ s : State n, s.pc t = .retBuf h a →
  (s.pool.returnsBlks = true → (s.pool.hdr h).blks = []) →
  Runs t s ((s.setPool (s.pool.pushBuf h).incBufcount).resume t a) := by
  intro s hpc hnil
  have h1 : s.advance t = some ((s.setPool (s.pool.pushBuf h)).setPc t (.retBufInc a)) := by
   cases hr : s.pool.returnsBlks with
   | true => simp [advance,hpc,hnil hr]
   | false => simp [advance,hpc,hr]
  refine .head h1 (.single ?_)
  simp only [advance]
  obtain _ | _ | _ | _ := a <;> simp [resume]
 cases hr : s.pool.returnsBlks with
 | false =>
  have := hend s hpc (by simp [hr])
  simpa [retBuf,hr] using this
 | true =>
  have hloop := runs_retBlks (s.pool.hdr h).blks.reverse s hpc hr (by simp)
  refine hloop.trans ?_
  have hgone := retBlks_hdr s.pool h (s.pool.hdr h).blks.reverse (by simp)
  rw [retBuf,if_pos hr]
  exact hend (s.setPool (s.pool.retBlks h (s.pool.hdr h).blks.reverse)) hpc (fun _ => hgone)

/-- What follows the attempt to grow header `h`. -/
def grown (s : State n) (t : Fin n) (h totsize : Nat) (cached : Bool) : Bool × Pool → State n
 | (true,p) => (s.setPool p).succeed t h
 | (false,p) => (s.setPool p).setPc t (.retBuf h (if cached then .retry totsize else .done))

lemma runs_growLoop (totsize : Nat) (cached : Bool) (fuel : Nat) (s : State n) (needed : Int)
 (hfuel : s.pool.blkFree.length < fuel) (hpc : s.pc t = .grow h needed totsize cached) :
 Runs t s (grown s t h totsize cached (s.pool.growLoop h fuel needed)) := by
 induction fuel generalizing s needed with
 | zero => omega
 | succ fuel ih =>
  cases hf : s.pool.blkFree with
  | nil =>
   have hloop : s.pool.growLoop h (fuel+1) needed = (false,s.pool) := by
    simp [growLoop,hf]
   rw [hloop]
   refine .single ?_
   simp [advance,hpc,hf,grown]
  | cons b bs =>
   let mid := (s.setPool { s.pool with blkFree := bs }).setPc t (.gotBlk h b needed totsize cached)
   have h1 : s.advance t = some mid := by simp [advance,hpc,hf,mid]
   refine .head h1 ?_
   by_cases hmore : (s.pool.cfg.segSize : Int) < needed
   · let hdr : BufHdr := { s.pool.hdr h with blks := (s.pool.hdr h).blks++[b] }
     let next := (s.setPool ({ s.pool with blkFree := bs }.decBlkcount.setHdr h hdr)).setPc t
      (.grow h (needed-s.pool.cfg.segSize) totsize cached)
     have h2 : mid.advance t = some next := by
      simp [advance,mid,next,hdr,hmore]
     refine .head h2 ?_
     have hrest := ih next (needed-s.pool.cfg.segSize) (by simpa [next,hf] using hfuel)
     have hloop : s.pool.growLoop h (fuel+1) needed =
      next.pool.growLoop h fuel (needed-s.pool.cfg.segSize) := by
      simp [growLoop,hf,hmore,next,hdr]
     rw [hloop]
     convert hrest using 1
     rcases next.pool.growLoop h fuel (needed - s.pool.cfg.segSize) with ⟨_ | _,p⟩ <;>
      simp [grown,next]
   · refine .single ?_
     simp [advance,mid,hmore,grown,growLoop,hf]

lemma runs_fit (s : State n) (t : Fin n) (h totsize : Nat) (cached : Bool) :
 Runs t (s.fit t h totsize cached) (grown s t h totsize cached (s.pool.grow h totsize)) := by
 simp only [fit,grow]
 split_ifs with hlt
 · have := runs_growLoop (t := t) (h := h) totsize cached (s.pool.blkFree.length+1)
    (s.setPc t (.grow h ((totsize : Int)-(s.pool.hdr h).size) totsize cached))
    ((totsize : Int)-(s.pool.hdr h).size) (Nat.lt_succ_self _) (by simp)
   convert this using 1
   show grown s t h totsize cached _ = grown _ t h totsize cached (growLoop h _ s.pool _)
   rcases s.pool.growLoop h (s.pool.blkFree.length+1) ((totsize : Int)-(s.pool.hdr h).size)
    with ⟨_ | _,p⟩ <;> simp [grown]
 · exact .refl

/-- Growing a header in hand is a run to the end of the call or to the pool's free list. -/
lemma runs_tryGrow (s : State n) (t : Fin n) (h totsize : Nat) (cached : Bool) :
 Runs t (s.fit t h totsize cached) (match s.tryGrow h totsize with
  | (some h,s) => s.succeed t h
  | (none,s) => s.setPc t (if cached then .getBuf totsize else .idle)) := by
 refine (runs_fit s t h totsize cached).trans ?_
 unfold tryGrow
 rcases s.pool.grow h totsize with ⟨_ | _,q⟩
 · have := runs_retBuf (s := (s.setPool q).setPc t
    (.retBuf h (if cached then .retry totsize else .done))) (t := t) (h := h)
   cases cached <;> simpa [grown,resume] using this
 · exact .refl

lemma runs_getPoolBuf (s : State n) (t : Fin n) (totsize : Nat) :
 Runs t (s.setPc t (.getBuf totsize)) (match s.getPoolBuf totsize with
  | (some h,s) => s.succeed t h
  | (none,s) => s.setPc t .idle) := by
 unfold getPoolBuf
 cases hf : s.pool.bufFree with
 | nil =>
  simp only [getBuf]
  exact .single (by simp [advance,popBuf,hf])
 | cons x xs =>
  simp only [getBuf,popBuf,hf]
  let p := { s.pool with bufFree := xs }
  let mid := (s.setPool p).setPc t (.gotBuf x totsize)
  have h1 : (s.setPc t (.getBuf totsize)).advance t = some mid := by
   simp [advance,popBuf,hf,mid,p]
  have h2 : mid.advance t = some ((s.setPool p.decBufcount).fit t x totsize false) := by
   simp only [advance,mid,setPc,update_self,Option.some.injEq]
   exact fit_setPc (s.setPool p.decBufcount) t x totsize false (.gotBuf x totsize)
  exact .head h1 (.head h2 (runs_tryGrow _ t x totsize false))

lemma pc_tryGrow (s : State n) (h totsize : Nat) : (s.tryGrow h totsize).2.pc = s.pc := by
 unfold tryGrow
 split <;> rfl

lemma pc_getLocalBuf (s : State n) (t : Fin n) (totsize : Nat) :
 (s.getLocalBuf t totsize).2.pc = s.pc := by
 unfold getLocalBuf
 split
 · rfl
 · exact pc_tryGrow ..

lemma pc_getPoolBuf (s : State n) (totsize : Nat) : (s.getPoolBuf totsize).2.pc = s.pc := by
 unfold getPoolBuf
 split
 · rfl
 · exact pc_tryGrow ..

lemma runs_getLocalBuf {size : Nat} (hmax : ¬ s.pool.cfg.maxSize < size) :
 Runs t (s.alloc t size) (match s.getLocalBuf t (size+s.pool.cfg.roomSize) with
  | (some h,s) => s.succeed t h
  | (none,s') => s'.setPc t (.getBuf (size+s.pool.cfg.roomSize))) := by
 simp only [alloc,if_neg hmax]
 unfold getLocalBuf
 cases hc : s.cache t with
 | nil => exact .refl
 | cons h hs => exact runs_tryGrow _ t h _ true

lemma runs_bufferAlloc (hpc : s.pc t = .idle) (size : Nat) :
 Runs t (s.alloc t size) (s.bufferAlloc t size).2 := by
 unfold bufferAlloc
 split_ifs with hmax
 · simp only [alloc,if_pos hmax]
   exact .refl
 have hlocal := runs_getLocalBuf (t := t) hmax
 have hidle := pc_getLocalBuf s t (size+s.pool.cfg.roomSize)
 rcases hl : s.getLocalBuf t (size+s.pool.cfg.roomSize) with ⟨_ | h,s1⟩
 · simp only [hl] at hlocal hidle ⊢
   refine hlocal.trans ?_
   have hpool := runs_getPoolBuf s1 t (size+s.pool.cfg.roomSize)
   have hidle' := pc_getPoolBuf s1 (size+s.pool.cfg.roomSize)
   rcases hp : s1.getPoolBuf (size+s.pool.cfg.roomSize) with ⟨_ | h,s2⟩
   · simp only [hp] at hpool hidle' ⊢
     rwa [setPc_eq_self .idle (by rw [hidle',hidle,hpc])] at hpool
   · simp only [hp] at hpool hidle' ⊢
     rwa [succeed_eq,setPc_eq_self .idle (by simp [give,hidle',hidle,hpc])] at hpool
 · simp only [hl] at hlocal hidle ⊢
   rwa [succeed_eq,setPc_eq_self .idle (by simp [give,hidle,hpc])] at hlocal

lemma runs_bufferFree (hpc : s.pc t = .idle) : Runs t (s.free t h) (s.bufferFree t h) := by
 simp only [free,bufferFree]
 split
 · have := runs_retBuf (s := { s with allocated := update s.allocated h false }.setPc t
    (.retBuf h .done)) (t := t) (h := h) (a := .done) (by simp)
   convert this using 1
   simp [resume,← hpc]
 · exact .refl

end Runs

-- What the calls return

lemma growLoop_spec (h fuel : Nat) (p : Pool) (needed : Int) :
 (growLoop h fuel p needed).2.cfg = p.cfg ∧
 ((growLoop h fuel p needed).1 = true → p.blkFree ≠ [] ∧
  ((p.hdr h).blks.length*p.cfg.segSize : Int)+needed ≤
   ((growLoop h fuel p needed).2.hdr h).size) := by
 induction fuel generalizing p needed with
 | zero => simp [growLoop]
 | succ fuel ih =>
  unfold growLoop
  cases hf : p.blkFree with
  | nil => simp [hf]
  | cons b bs =>
   simp only [getBlk,popBlk,hf,Option.map_some,decBlkcount,setHdr]
   split_ifs with hmore
   · obtain ⟨h1,h2⟩ := ih _ (needed-p.cfg.segSize)
     refine ⟨h1,fun hok => ⟨by simp,?_⟩⟩
     have := (h2 hok).2
     simp only [update_self,length_append,length_singleton] at this
     push_cast at this
     rw [Int.add_mul] at this
     omega
   · refine ⟨rfl,fun _ => ⟨by simp,?_⟩⟩
     simp only [update_self,BufHdr.segcount,length_append,length_singleton]
     have hlen : (p.hdr h).blks.length*p.cfg.segSize+p.cfg.segSize ≤
      ((if (p.hdr h).inlined then 1 else 0)+((p.hdr h).blks.length+1))*p.cfg.segSize := by
      rw [← Nat.succ_mul]
      exact Nat.mul_le_mul_right _ (by omega)
     omega

lemma grow_spec {p : Pool} {h : Nat} (totsize : Nat) (hset : Settled p h)
 (hinline : p.cfg.hdrdata = true → p.blkFree = []) : (p.grow h totsize).2.cfg = p.cfg ∧
 ((p.grow h totsize).1 = true → totsize ≤ ((p.grow h totsize).2.hdr h).size) := by
 unfold grow
 split_ifs with hlt
 · obtain ⟨h1,h2⟩ := growLoop_spec h (p.blkFree.length+1) p ((totsize : Int)-(p.hdr h).size)
   refine ⟨h1,fun hok => ?_⟩
   obtain ⟨hne,hle⟩ := h2 hok
   have hsize : ((p.hdr h).size : Int) = (p.hdr h).blks.length*p.cfg.segSize := by
    exact_mod_cast hset (by simpa using mt hinline hne)
   omega
 · exact ⟨rfl,fun _ => by simp only; omega⟩

section Specs

variable {s s' : State n} {t : Fin n} {h : Nat}

lemma Inv.blkFree_of_hdrdata (hi : Inv s) (hd : s.pool.cfg.hdrdata = true) :
 s.pool.blkFree = [] := by
 have := hi.length_blkFree
 rw [hi.cfg.inline hd] at this
 exact length_eq_zero_iff.mp (Nat.le_zero.mp this)

/-- What a part of `buffer_alloc` does to the constants, the callers' headers and the header it
takes. -/
structure TakeSpec (s s' : State n) (totsize : Nat) (r : Option Nat) : Prop where
 cfg : s'.pool.cfg = s.pool.cfg
 allocated : s'.allocated = s.allocated
 fresh : ∀ x, r = some x → s.allocated x = false
 fits : ∀ x, r = some x → totsize ≤ (s'.pool.hdr x).size

lemma tryGrow_spec (totsize : Nat) (hset : Settled s.pool h)
 (hinline : s.pool.cfg.hdrdata = true → s.pool.blkFree = []) (hfree : s.allocated h = false) :
 TakeSpec s (s.tryGrow h totsize).2 totsize (s.tryGrow h totsize).1 := by
 obtain ⟨h1,h2⟩ := grow_spec totsize hset hinline
 unfold tryGrow
 rcases hg : s.pool.grow h totsize with ⟨_ | _,q⟩ <;> rw [hg] at h1 h2
 · exact ⟨(retBuf_bufcount q h).2.trans h1,rfl,fun x hx => by simp at hx,fun x hx => by simp at hx⟩
 · refine ⟨h1,rfl,fun x hx => ?_,fun x hx => ?_⟩ <;> cases hx
   · exact hfree
   · exact h2 rfl

lemma Inv.getLocalBuf_spec (hi : Inv s) (t : Fin n) (totsize : Nat) :
 TakeSpec s (s.getLocalBuf t totsize).2 totsize (s.getLocalBuf t totsize).1 := by
 unfold getLocalBuf
 cases hc : s.cache t with
 | nil => exact ⟨rfl,rfl,fun x hx => by simp at hx,fun x hx => by simp at hx⟩
 | cons h hs =>
  have hp : hdrAt s (.cache t) h ≠ 0 := by simp [hdrAt,hc]
  have hfree := hi.hdrs.eq_zero (q := .allocated) hp (by simp)
  obtain ⟨h1,h2,h3,h4⟩ := tryGrow_spec (s := s.setCache t hs) totsize
   (hi.sizes.settled_of (hi.not_busy hp (by simp))) hi.blkFree_of_hdrdata
   (by simpa [hdrAt,setCache] using hfree)
  exact ⟨h1,h2,h3,h4⟩

lemma Inv.getPoolBuf_spec {totsize : Nat} (hi : Inv (s.setPc t (.getBuf totsize))) :
 TakeSpec s (s.getPoolBuf totsize).2 totsize (s.getPoolBuf totsize).1 := by
 unfold getPoolBuf
 cases hf : s.pool.bufFree with
 | nil =>
  simp only [getBuf,popBuf,hf]
  exact ⟨rfl,rfl,fun x hx => by simp at hx,fun x hx => by simp at hx⟩
 | cons h hs =>
  simp only [getBuf,popBuf,hf]
  have hp : hdrAt (s.setPc t (.getBuf totsize)) .free h ≠ 0 := by simp [hdrAt,hf]
  have hfree := hi.hdrs.eq_zero (q := .allocated) hp (by simp)
  let p : Pool := { s.pool with bufFree := hs }
  have hset : Settled p.decBufcount h := hi.sizes.settled_of (hi.not_busy hp (by simp))
  obtain ⟨h1,h2,h3,h4⟩ := tryGrow_spec (s := s.setPool p.decBufcount) totsize hset
   hi.blkFree_of_hdrdata (by simpa [hdrAt] using hfree)
  exact ⟨h1,h2,h3,h4⟩

/-- What `buffer_alloc` does: no header of a caller changes, and the header it returns was free
and is large enough. -/
structure AllocSpec (s s' : State n) (size : Nat) (r : Option Nat) : Prop where
 inv : Inv s'
 pc : s'.pc = s.pc
 cfg : s'.pool.cfg = s.pool.cfg
 hdr : ∀ x, s.allocated x = true → s'.pool.hdr x = s.pool.hdr x
 none : r = none → s'.allocated = s.allocated
 some : ∀ x, r = some x → s.allocated x = false ∧
  s'.allocated = update s.allocated x true ∧
  size+s.pool.cfg.roomSize ≤ (s'.pool.hdr x).size ∧ size ≤ s.pool.cfg.maxSize

lemma Inv.alloc_allocated (hi : Inv s) (hx : s.allocated x = true) (size : Nat) :
 (s.alloc t size).allocated x = true ∧ (s.alloc t size).pool.hdr x = s.pool.hdr x := by
 unfold State.alloc
 split_ifs
 · exact ⟨hx,rfl⟩
 · cases hc : s.cache t with
   | nil => exact ⟨hx,rfl⟩
   | cons h hs =>
    refine fit_allocated _ true ?_ hx
    rintro rfl
    have := hi.hdrs.eq_zero (p := .cache t) (q := .allocated) (t := x)
     (by simp [hdrAt,hc]) (by simp)
    simp [hdrAt,hx] at this

lemma give_spec {s1 : State n} {size : Nat} (h : TakeSpec s s1 (size+s.pool.cfg.roomSize)
 (some x)) (hmax : ¬ s.pool.cfg.maxSize < size) : s.allocated x = false ∧
  (s1.give t x).allocated = update s.allocated x true ∧
  size+s.pool.cfg.roomSize ≤ ((s1.give t x).pool.hdr x).size ∧ size ≤ s.pool.cfg.maxSize := by
 refine ⟨h.fresh x rfl,by simp [give,h.allocated],?_,by omega⟩
 simpa [give] using h.fits x rfl

lemma Inv.bufferAlloc_spec (hi : Inv s) (hpc : s.pc t = .idle) (size : Nat) :
 AllocSpec s (s.bufferAlloc t size).2 size (s.bufferAlloc t size).1 := by
 have hrun := runs_bufferAlloc hpc size
 have hinv : Inv (s.bufferAlloc t size).2 := (hi.alloc hpc).runs hrun
 have hframe : ∀ x, s.allocated x = true → (s.bufferAlloc t size).2.pool.hdr x = s.pool.hdr x := by
  intro x hx
  obtain ⟨h1,h2⟩ := hi.alloc_allocated hx size
  exact ((hi.alloc hpc).runs_allocated h1 hrun).2.trans h2
 revert hinv hframe
 unfold bufferAlloc
 split_ifs with hmax
 · exact fun hinv hframe => ⟨hinv,rfl,rfl,hframe,fun _ => rfl,fun x hx => by simp at hx⟩
 have hlocal := hi.getLocalBuf_spec t (size+s.pool.cfg.roomSize)
 have hidle := pc_getLocalBuf s t (size+s.pool.cfg.roomSize)
 have hmid := runs_getLocalBuf (t := t) hmax
 rcases hl : s.getLocalBuf t (size+s.pool.cfg.roomSize) with ⟨_ | x,s1⟩
 · simp only [hl] at hlocal hidle hmid ⊢
   have hi1 := (hi.alloc hpc).runs hmid
   have hpool := hi1.getPoolBuf_spec
   have hidle' := pc_getPoolBuf s1 (size+s.pool.cfg.roomSize)
   have htake : TakeSpec s (s1.getPoolBuf (size+s.pool.cfg.roomSize)).2
    (size+s.pool.cfg.roomSize) (s1.getPoolBuf (size+s.pool.cfg.roomSize)).1 :=
    ⟨hpool.cfg.trans hlocal.cfg,hpool.allocated.trans hlocal.allocated,
     fun x hx => hlocal.allocated ▸ hpool.fresh x hx,hpool.fits⟩
   rcases hp : s1.getPoolBuf (size+s.pool.cfg.roomSize) with ⟨_ | x,s2⟩
   · simp only [hp] at htake hidle' ⊢
     exact fun hinv hframe => ⟨hinv,hidle'.trans hidle,htake.cfg,hframe,fun _ => htake.allocated,
      fun x hx => by simp at hx⟩
   · simp only [hp] at htake hidle' ⊢
     refine fun hinv hframe => ⟨hinv,hidle'.trans hidle,htake.cfg,hframe,fun hx => by simp at hx,
      fun y hy => ?_⟩
     cases hy
     exact give_spec htake hmax
 · simp only [hl] at hlocal hidle ⊢
   refine fun hinv hframe => ⟨hinv,hidle,hlocal.cfg,hframe,fun hx => by simp at hx,fun y hy => ?_⟩
   cases hy
   exact give_spec hlocal hmax

/-- What several calls of `buffer_alloc` do that returned the headers `hs`. -/
structure GrantSpec (s s' : State n) (size : Nat) (hs : List Nat) : Prop where
 inv : Inv s'
 pc : s'.pc = s.pc
 cfg : s'.pool.cfg = s.pool.cfg
 hdr : ∀ x, s.allocated x = true → s'.pool.hdr x = s.pool.hdr x
 allocated : ∀ x, s'.allocated x = true ↔ s.allocated x = true ∨ x ∈ hs
 fresh : ∀ x ∈ hs, s.allocated x = false
 fits : ∀ x ∈ hs, size+s.pool.cfg.roomSize ≤ (s'.pool.hdr x).size

lemma AllocSpec.grant {size : Nat} {r : Option Nat} (h : AllocSpec s s' size r) :
 GrantSpec s s' size r.toList where
 __ := h
 allocated x := by
  cases r with
  | none => simp [h.none rfl]
  | some y =>
   obtain ⟨-,hall,-⟩ := h.some y rfl
   by_cases hx : x = y <;> simp [hall,hx]
 fresh x hx := (h.some x (by simpa using hx)).1
 fits x hx := (h.some x (by simpa using hx)).2.2.1

lemma GrantSpec.append {s'' : State n} {size : Nat} {hs hs' : List Nat}
 (h1 : GrantSpec s s' size hs) (h2 : GrantSpec s' s'' size hs') :
 GrantSpec s s'' size (hs++hs') where
 inv := h2.inv
 pc := h2.pc.trans h1.pc
 cfg := h2.cfg.trans h1.cfg
 hdr x hx := (h2.hdr x ((h1.allocated x).mpr (.inl hx))).trans (h1.hdr x hx)
 allocated x := by rw [h2.allocated,h1.allocated,mem_append,or_assoc]
 fresh x hx := by
  rcases mem_append.mp hx with hx | hx
  · exact h1.fresh x hx
  · have hno := h2.fresh x hx
    by_contra hyes
    simp [(h1.allocated x).mpr (.inl (by simpa using hyes))] at hno
 fits x hx := by
  rcases mem_append.mp hx with hx | hx
  · rw [h2.hdr x ((h1.allocated x).mpr (.inr hx))]
    exact h1.fits x hx
  · exact h1.cfg ▸ h2.fits x hx

lemma Inv.bufferAllocMulti_spec (hi : Inv s) (hpc : s.pc t = .idle) (size num : Nat) :
 GrantSpec s (bufferAllocMulti t size num s).2 size (bufferAllocMulti t size num s).1 := by
 induction num generalizing s with
 | zero => exact ⟨hi,rfl,rfl,fun _ _ => rfl,by simp [bufferAllocMulti],
  by simp [bufferAllocMulti],by simp [bufferAllocMulti]⟩
 | succ num ih =>
  have hone := (hi.bufferAlloc_spec hpc size).grant
  unfold bufferAllocMulti
  rcases hr : s.bufferAlloc t size with ⟨_ | x,s1⟩
  · simpa only [hr,Option.toList_none] using hone
  · simp only [hr] at hone
    exact hone.append (ih hone.inv (by rw [hone.pc,hpc]))

/-- What `odp_buffer_free` does. -/
structure FreeSpec (s s' : State n) (h : Nat) : Prop where
 inv : Inv s'
 pc : s'.pc = s.pc
 cfg : s'.pool.cfg = s.pool.cfg
 hdr : ∀ x, x ≠ h → s.allocated x = true → s'.pool.hdr x = s.pool.hdr x
 allocated : s'.allocated = update s.allocated h false

lemma Inv.bufferFree_spec (hi : Inv s) (hpc : s.pc t = .idle) (ha : s.allocated h = true) :
 FreeSpec s (s.bufferFree t h) h := by
 have hrun := runs_bufferFree (h := h) hpc
 have hi' := hi.free hpc ha
 refine ⟨hi'.runs hrun,?_,?_,fun x hx hxa => ?_,?_⟩
 · simp only [bufferFree]
   split <;> rfl
 · simp only [bufferFree]
   split
   · exact (retBuf_bufcount _ h).2
   · rfl
 · have hkeep : (s.free t h).allocated x = true ∧ (s.free t h).pool.hdr x = s.pool.hdr x := by
    simp only [State.free]
    split <;> simp [hx,hxa]
   exact (hi'.runs_allocated hkeep.1 hrun).2.trans hkeep.2
 · simp only [State.bufferFree]
   split <;> rfl

end Specs

end Packages.BufferPool
