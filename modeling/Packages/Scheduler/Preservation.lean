import Packages.Scheduler.Invariant

/-!
# Every step of the scheduler keeps the invariant
-/

namespace Packages.Scheduler

open Function

open State

variable {ε : Type} {m n : Nat} {s s' : State ε m n} {t : Fin n} {q : Fin m}

attribute [local simp] setPc hand setLocal Pc.creating enqPri

-- Steps that leave the queue table alone

/-- A thread that goes on without a token in hand. -/
structure Pc.Free (queue : Fin m → QueueEntry ε) (t : Fin n) (pc : Pc m) : Prop where
 token : pc.token queue t = none
 ok : pc.Ok queue
 creating : pc.creating = none

variable {queue : Fin m → QueueEntry ε}

lemma Pc.free_idle : Pc.Free queue t .idle := ⟨rfl,trivial,rfl⟩

lemma Pc.free_prio (i max : Nat) : Pc.Free queue t (.prio i max) := ⟨rfl,trivial,rfl⟩

lemma Pc.free_scan (i : Fin schedPrios) (j max : Nat) :
 Pc.Free queue t (.scan i j max) := ⟨rfl,trivial,rfl⟩

namespace Inv

lemma setPc (h : Inv s) {pc : Pc m} (hold : (s.pc t).token s.queue t = none)
 (hnew : pc.Free s.queue t) (hscan : pc.scanning = true → (s.schedLocal t).priQueue = none) :
 Inv (s.setPc t pc) := by
 have f : Frame s (s.setPc t pc) t := by
  constructor <;> simp +contextual
 have hhand : ∀ u, (s.setPc t pc).hand u = s.hand u := by
  intro u
  by_cases hu : u = t
  · subst hu
    simp [hold,hnew.token]
  · exact f.hand hu
 refine h.thread_step rfl f ?_ ?_ ?_ (h.schedLocal t) ?_
 · exact custody_keep h.custody (fun _ => rfl) rfl fun u => (hhand u).symm ▸ .rfl
 · simpa using hnew.ok
 · simpa using hnew.creating
 · simpa using hscan

lemma setLocal (h : Inv s) {l : Local ε m} (hpc : s.pc t = .idle)
 (hheld : l.held = (s.schedLocal t).held) (hl : l.Ok s.queue) : Inv (s.setLocal t l) := by
 have f : Frame s (s.setLocal t l) t := by
  constructor <;> simp +contextual
 have hhand : ∀ u, (s.setLocal t l).hand u = s.hand u := by
  intro u
  by_cases hu : u = t
  · subst hu
    simp [hheld]
  · exact f.hand hu
 refine h.thread_step rfl f ?_ (h.pc t) ?_ ?_ ?_
 · exact custody_keep h.custody (fun _ => rfl) rfl fun u => (hhand u).symm ▸ .rfl
 · simp [hpc]
 · simpa using hl
 · simp [hpc,Pc.scanning]

lemma enqPri (h : Inv s) {pc : Pc m} {x : Token} (hx : (s.pc t).token s.queue t = some x)
 (hnew : pc.Free s.queue t) (hscan : pc.scanning = true → (s.pc t).scanning = true) :
 Inv ((s.enqPri x.priQ x.ev).setPc t pc) := by
 have f : Frame s ((s.enqPri x.priQ x.ev).setPc t pc) t := by
  constructor <;> simp +contextual
 refine h.thread_step rfl f ?_ ?_ ?_ (h.schedLocal t) ?_
 · refine custody_enqPri (x := x) (t := t) h.custody (fun _ => rfl) rfl (fun u hu => f.hand hu) ?_
   have hhand : ((s.enqPri x.priQ x.ev).setPc t pc).hand t = (s.schedLocal t).held.toList := by
    simp [hnew.token]
   rw [hhand,hand,hx]
   exact List.perm_append_singleton ..
 · simpa using hnew.ok
 · simpa using hnew.creating
 · simpa using fun hs => h.scanning t (hscan hs)

lemma deqPri (h : Inv s) {i : Fin schedPrios} {j max : Nat} {ev : CmdEvent}
 {evs : List CmdEvent} (hpc : s.pc t = .deqPri i j max)
 (hold : s.priQueue (scanQueue t i j) = ev::evs) :
 Inv ({ s with priQueue := update s.priQueue (scanQueue t i j) evs }.setPc t
  (.gotCmd i j max ev)) := by
 have f : Frame s ({ s with priQueue := update s.priQueue (scanQueue t i j) evs }.setPc t
  (.gotCmd i j max ev)) t := by
  constructor <;> simp +contextual
 refine h.thread_step rfl f ?_ ?_ ?_ (h.schedLocal t) fun _ => h.scanning t (by rw [hpc]; rfl)
 · refine custody_deqPri (x := ⟨ev,scanQueue t i j⟩) (t := t) h.custody (fun _ => rfl) hold rfl
    (fun u hu => f.hand hu) ?_
   simp [hpc,Pc.token]
 · simp [Pc.Ok]
 · simp

lemma releaseAtomic (h : Inv s) (hpc : s.pc t = .idle) : Inv (s.releaseAtomic t) := by
 simp only [State.releaseAtomic]
 split
 · next priQ ev hp hev hb =>
   have f : Frame s ((s.enqPri priQ ev).setLocal t
    { s.schedLocal t with priQueue := none }) t := by
    constructor <;> simp +contextual
   refine h.thread_step rfl f ?_ (h.pc t) ?_ ?_ (by simp)
   · refine custody_enqPri (x := ⟨ev,priQ⟩) (t := t) h.custody (fun _ => rfl) rfl
      (fun u hu => f.hand hu) ?_
     simp [Local.held,hp,hev]
   · simp [hpc]
   · simp only [State.setLocal,update_self]
     exact ⟨by simp,(h.schedLocal t).gen,by simp [hb]⟩
 · exact h

lemma priQueue_releaseAtomic (h : Inv s) (hb : (s.schedLocal t).bufs = []) :
 ((s.releaseAtomic t).schedLocal t).priQueue = none := by
 have hheld := (h.schedLocal t).held
 rcases hp : (s.schedLocal t).priQueue with _ | priQ
 · simp [State.releaseAtomic,hp]
 · rw [hp] at hheld
   obtain ⟨ev,hev⟩ := Option.isSome_iff_exists.mp (hheld rfl)
   simp [State.releaseAtomic,hp,hev,hb]

end Inv

lemma pc_releaseAtomic (s : State ε m n) (t : Fin n) : (s.releaseAtomic t).pc = s.pc := by
 simp only [releaseAtomic]
 split <;> rfl

lemma Local.Ok.copyEvents {l : Local ε m} (hl : l.Ok queue)
 (max : Nat) : (l.copyEvents max).Ok queue where
 __ := hl
 bufs q hq hb := hl.bufs q hq fun h => hb (by simp [Local.copyEvents,h])

lemma Inv.schedule (h : Inv s) (hpc : s.pc t = .idle) (max : Nat) : Inv (s.schedule t max) := by
 have hidle : ((s.releaseAtomic t).pc t) = .idle := by rw [pc_releaseAtomic,hpc]
 have hrel := h.releaseAtomic hpc
 have hout : Inv ((s.releaseAtomic t).setLocal t
  { (s.releaseAtomic t).schedLocal t with out := [], outQueue := none }) :=
  hrel.setLocal hidle rfl
   ⟨(hrel.schedLocal t).held,(hrel.schedLocal t).gen,(hrel.schedLocal t).bufs⟩
 unfold State.schedule
 simp only
 split_ifs with hb hpause
 · exact h.setLocal hpc rfl ((h.schedLocal t).copyEvents max)
 · exact hout
 · refine hout.setPc ?_ (Pc.free_prio 0 max) fun _ => ?_
   · simp [hidle,Pc.token]
   · simpa using h.priQueue_releaseAtomic (not_not.mp hb)

end Packages.Scheduler
