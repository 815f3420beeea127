import Packages.Ring.Invariant

/-!
# The ring is a queue

Every step keeps the invariant, as long as an empty batch does not move the tail back: a thread
with an empty batch shares its head with the thread that reserves next, and may write the tail
after it.
-/

namespace Packages.Ring

open Function State List Nat

variable {α : Type} {n : Nat}

attribute [local simp] setPc store Pc.inFlight OdphRing.setTail resv
 OdphRing.setHead

section Steps

variable {s s' : State α n} {t : Fin n} {r : Resv α} {i : Nat}

lemma Inv.others (h : Inv s) (hg : Grows s s') (hpc : ∀ u, u ≠ t → s'.pc u = s.pc u)
 (htail : ∀ u r, u ≠ t → (s.pc u).inFlight = some r → 0 < r.n → s'.tail r.side ≤ r.base)
 (hstore : ∀ u r, u ≠ t → s.pc u = .store r → 0 < r.n → s'.tail r.side = s.tail r.side)
 (hunread : ∀ u r, u ≠ t → (s.pc u).inFlight = some r → r.side = .cons → ∀ x, r.base ≤ x →
  x < r.base+r.n → s.deq[x]? = some none → s'.deq[x]? = some none)
 (hself : PcOk s' (s'.pc t)) (u : Fin n) : PcOk s' (s'.pc u) := by
 by_cases hu : u = t
 · exact hu ▸ hself
 · rw [hpc u hu]
   exact (h.pc u).grows hg (fun r => htail u r hu) (fun r => hstore u r hu)
    (fun r => hunread u r hu)

lemma Inv.apart_of (h : Inv s) (hpc : ∀ u, u ≠ t → s'.pc u = s.pc u)
 (hself : ∀ r, (s'.pc t).inFlight = some r → ∃ r', (s.pc t).inFlight = some r' ∧
  r'.side = r.side ∧ r'.base = r.base ∧ r'.n = r.n) (u v : Fin n) (huv : u ≠ v) :
 Apart (s'.pc u) (s'.pc v) := by
 have hold : ∀ w r, (s'.pc w).inFlight = some r → ∃ r', (s.pc w).inFlight = some r' ∧
  r'.side = r.side ∧ r'.base = r.base ∧ r'.n = r.n := by
  intro w r hr
  by_cases hw : w = t
  · subst hw
    exact hself r hr
  · exact ⟨r,by rwa [hpc w hw] at hr,rfl,rfl,rfl⟩
 intro a b ha hb hside hpos hpos'
 obtain ⟨a',ha',hs,hbase,hn⟩ := hold u a ha
 obtain ⟨b',hb',hs',hbase',hn'⟩ := hold v b hb
 have := h.apart u v huv a' b' ha' hb' (by rw [hs,hs',hside]) (by omega) (by omega)
 omega

lemma Inv.pending_of (h : Inv s) (hpc : ∀ u, u ≠ t → s'.pc u = s.pc u) {x : Nat}
 (hx : s.deq[x]? = some none) (hself : ¬ Awaits (s.pc t) x) : ∃ u, Awaits (s'.pc u) x := by
 obtain ⟨u,hu⟩ := h.pending x hx
 have hut : u ≠ t := fun e => hself (e ▸ hu)
 exact ⟨u,by rwa [hpc u hut]⟩

lemma Inv.setPc (h : Inv s) {pc : Pc α} (hok : PcOk s pc)
 (hfl : ∀ r, pc.inFlight = some r → (s.pc t).inFlight = some r)
 (hcopy : ∀ r i, s.pc t ≠ .copy r i) : Inv (s.setPc t pc) := by
 have hg := grows_setPc s t pc
 have hother : ∀ u, u ≠ t → (s.setPc t pc).pc u = s.pc u := fun u hu => by simp [hu]
 have hself : (s.setPc t pc).pc t = pc := by simp
 refine ⟨h.size,fun d => by rw [resv_setPc]; exact h.head d,h.tail,h.cons_le,h.mid_le,
  h.prod_le,h.room,h.others (t := t) hg hother (fun u r _ hr hpos => ((h.pc u).range hr hpos).1)
   (fun _ _ _ _ _ => rfl) (fun _ _ _ _ _ _ _ _ hx => hx) ?_,
  h.apart_of (t := t) hother (fun r hr => ⟨r,hfl r (by rwa [hself] at hr),rfl,rfl,rfl⟩),
  h.written,h.reserved,h.gone,h.read,h.kept,fun x hx => h.pending_of (t := t) hother hx ?_⟩
 case refine_2 =>
  rintro ⟨r,i,hr,-⟩
  exact hcopy r i hr
 rw [hself]
 exact hok.grows hg (fun r hr hpos => (hok.range hr hpos).1) (fun _ _ _ => rfl)
  (fun _ _ _ _ _ _ hx => hx)

lemma Inv.store (h : Inv s) (hpc : s.pc t = .store r)
 (hempty : r.n = 0 → (s.ring.ht r.side).tail = r.head) : Inv (s.store t r) := by
 obtain ⟨hr,hbase⟩ : PcOk s (.store r) := hpc ▸ h.pc t
 have hmask := h.mask_lt
 -- the ring's tail moves by the size of the batch
 have hmove : sub32 r.next (s.ring.ht r.side).tail = r.n ∧
  r.next = (s.tail r.side+r.n)%2^32 := by
  have hn := h.n_le hr
  have hh := hr.head
  have ht := h.tail r.side
  rcases Nat.eq_zero_or_pos r.n with h0 | hpos
  · have := hempty h0
    simp only [Resv.next,h0,add32,sub32]
    omega
  · have := hbase hpos
    simp only [Resv.next,add32,sub32]
    omega
 have htail' : ∀ d, (s.store t r).tail d = s.tail d+if d = r.side then r.n else 0 := by
  intro d
  by_cases hd : d = r.side
  · subst hd
    simp [hmove.1]
  · simp [hd]
 have hresv : ∀ d, (s.store t r).resv d = s.resv d := fun d => by cases d <;> rfl
 have hg : Grows s (s.store t r) :=
  ⟨rfl,fun d => le_of_eq (hresv d).symm,fun d => by rw [htail']; omega,fun _ hi =>
   hi,fun _ _ => rfl,fun _ hi => hi⟩
 have hother : ∀ u, u ≠ t → (s.store t r).pc u = s.pc u := fun u hu => by
  simp [hu]
 have hfl : (s.pc t).inFlight = some r := by rw [hpc]; rfl
 have hle : s.tail r.side+r.n ≤ s.resv r.side := by
  rcases Nat.eq_zero_or_pos r.n with h0 | hpos
  · have := (h.resv_le r.side).1
    omega
  · have := hbase hpos
    have := hr.range hpos
    omega
 have h1 := h.cons_le
 have h2 := h.mid_le
 have h3 := h.prod_le
 have h4 := h.room
 refine ⟨h.size,fun d => ?_,fun d => ?_,?_,?_,?_,?_,
  h.others (t := t) hg hother (fun u q hu hq hpos => ?_) (fun u q hu hq hpos => ?_)
   (fun _ _ _ _ _ _ _ _ hx => hx) (by simp [PcOk]),
  h.apart_of (t := t) hother (by simp),
  fun x hx => ?_,fun x hx => by rw [hresv]; exact h.reserved x hx,fun x hx => ?_,h.read,h.kept,
  fun x hx => h.pending_of (t := t) hother hx (by simp [Awaits,hpc])⟩
 · rw [hresv,← h.head d]
   by_cases hd : d = r.side
   · subst hd
     simp
   · simp [hd]
 · rw [htail']
   by_cases hd : d = r.side
   · subst hd
     simp [hmove.2]
   · simpa [hd] using h.tail d
 · rw [htail',hresv]
   split_ifs with hd
   · rwa [hd]
   · exact h1
 · rw [htail',hresv]
   omega
 · rw [htail',hresv]
   split_ifs with hd
   · rwa [hd]
   · exact h3
 · rw [htail',hresv]
   show _ ≤ _+s.ring.mask
   omega
 · -- a batch behind the tail would overlap this one
   have hq' := (h.pc u).range hq hpos
   rw [htail']
   split_ifs with hd
   · rcases Nat.eq_zero_or_pos r.n with h0 | hpos'
     · omega
     · have := h.apart t u (Ne.symm hu) r q hfl hq hd.symm hpos' hpos
       have := hbase hpos'
       rw [hd] at hq' ⊢
       omega
   · exact hq'.1
 · -- two threads that have seen the tail arrive would overlap
   rw [htail']
   split_ifs with hd
   · rcases Nat.eq_zero_or_pos r.n with h0 | hpos'
     · omega
     · have := h.apart t u (Ne.symm hu) r q hfl (by rw [hq]; rfl) hd.symm hpos' hpos
       have hb := hbase hpos'
       have hok : PcOk s (.store q) := hq ▸ h.pc u
       have hb' := hok.2 hpos
       rw [hd] at hb'
       omega
   · rfl
 · rw [htail'] at hx
   by_cases hx' : x < s.tail .prod
   · exact h.written x hx'
   · split_ifs at hx with hd
     · have hp := hr.progress
       have hb := hbase (by omega)
       cases hop : r.op with
       | enqueue objs =>
        simp only [Progress,hop] at hp
        rw [← hd] at hb
        have := hp.1 (x-r.base) (by omega)
        rwa [Nat.add_sub_cancel' (by omega)] at this
       | dequeue max => simp [Resv.side,hop,Op.side] at hd
     · omega
 · rw [htail'] at hx
   by_cases hx' : x < s.tail .cons
   · exact h.gone x hx'
   · split_ifs at hx with hd
     · have hp := hr.progress
       have hb := hbase (by omega)
       cases hop : r.op with
       | enqueue objs => simp [Resv.side,hop,Op.side] at hd
       | dequeue max =>
        simp only [Progress,hop] at hp
        rw [← hd] at hb
        have := hp.1 (x-r.base) (by omega)
        rwa [Nat.add_sub_cancel' (by omega)] at this
     · omega

-- Copying

lemma InFlight.pcOk (h : InFlight s r i) (hi : i ≤ r.n) :
 PcOk s (if i < r.n then .copy r i else .wait r) := by
 split_ifs with hlt
 · exact ⟨h,hlt⟩
 · obtain rfl : i = r.n := by omega
   exact h

lemma inFlight_copied (r : Resv α) (i : Nat) :
 (if i < r.n then Pc.copy r i else .wait r).inFlight = some r := by
 split_ifs <;> rfl

lemma Inv.slotIndex (h : Inv s) (hr : InFlight s r i) (hi : i < r.n) :
 s.ring.slotIndex r.head r.n i = (r.base+i)%s.ring.size := by
 obtain ⟨k,hk,hsize⟩ := h.size
 rw [hr.head]
 exact slotIndex_eq hk hsize (h.n_le hr) hi

lemma Inv.slot_ne (h : Inv s) {x y : Nat} (hx : ¬ s.IsRead x) (hx' : x < s.resv .prod)
 (hy : s.tail .cons ≤ y) (hy' : y < s.resv .prod) (hne : x ≠ y) :
 x%s.ring.size ≠ y%s.ring.size := by
 have hlow : s.tail .cons ≤ x := by
  by_contra hlt
  exact hx (h.gone x (by omega))
 have hroom := h.room
 have hsize := h.size_eq
 rcases lt_or_gt_of_ne hne with hlt | hlt
 · exact mod_ne_of_near hlt (by omega)
 · exact (mod_ne_of_near hlt (by omega)).symm

lemma Inv.copyIn (h : Inv s) {objs : List α} (hpc : s.pc t = .copy r i)
 (hop : r.op = .enqueue objs) : Inv (s.copy t r i) := by
 obtain ⟨hr,hi⟩ : PcOk s (.copy r i) := hpc ▸ h.pc t
 have hside : r.side = .prod := by rw [Resv.side,hop]; rfl
 obtain ⟨hlow,hhigh⟩ := hr.range (by omega)
 rw [hside] at hlow hhigh
 have hp := hr.progress
 simp only [Progress,hop] at hp
 have hk := h.slotIndex hr hi
 have hcopy : s.copy t r i = { s with
  ring := s.ring.setSlot ((r.base+i)%s.ring.size) s.enq[r.base+i]?
  written := update s.written (r.base+i) true }.copied t r (i+1) := by
  simp only [copy,hop,hk,hp.2 i hi]
 rw [hcopy]
 generalize hs' : ({ s with
  ring := s.ring.setSlot ((r.base+i)%s.ring.size) s.enq[r.base+i]?
  written := update s.written (r.base+i) true } : State α n).copied t r (i+1) = s'
 have hself : s'.pc t = if i+1 < r.n then .copy r (i+1) else .wait r := by
  simp [← hs',copied]
 have hother : ∀ u, u ≠ t → s'.pc u = s.pc u := fun u hu => by
  simp [← hs',copied,hu]
 have hresv : ∀ d, s'.resv d = s.resv d := fun d => by cases d <;> simp [← hs'] <;> rfl
 have henq : s'.enq = s.enq := by rw [← hs']; rfl
 have hdeq : s'.deq = s.deq := by rw [← hs']; rfl
 have htail : s'.tail = s.tail := by rw [← hs']; rfl
 have hht : s'.ring.ht = s.ring.ht := by rw [← hs']; rfl
 have hsize : s'.ring.size = s.ring.size := by rw [← hs']; rfl
 have hmask : s'.ring.mask = s.ring.mask := by rw [← hs']; rfl
 have hw : ∀ x, s'.written x = true ↔ x = r.base+i ∨ s.written x = true := by
  intro x
  by_cases hx : x = r.base+i <;> simp [← hs',copied,hx]
 have hslot : s'.ring.slot = update s.ring.slot ((r.base+i)%s.ring.size)
  s.enq[r.base+i]? := by rw [← hs']; rfl
 have hread : ∀ x, s'.IsRead x ↔ s.IsRead x := fun x => by simp only [State.IsRead,hdeq]
 have hg : Grows s s' := ⟨hmask,fun d => le_of_eq (hresv d).symm,
  fun d => by rw [htail],fun x hx => (hw x).mpr (.inr hx),fun x _ => by rw [henq],
  fun x hx => (hread x).mpr hx⟩
 have hcons := h.cons_le
 have hmid := h.mid_le
 refine ⟨hsize ▸ h.size,fun d => by rw [hht,hresv,h.head],fun d => by rw [hht,htail,h.tail],
  by rw [htail,hresv]; exact h.cons_le,by rw [htail,hresv]; exact h.mid_le,
  by rw [htail,hresv]; exact h.prod_le,by rw [htail,hresv,hmask]; exact h.room,
  h.others (t := t) hg hother (fun u q _ hq hpos => by rw [htail]; exact ((h.pc u).range hq hpos).1)
   (fun _ _ _ _ _ => by rw [htail]) (fun _ _ _ _ _ _ _ _ hx => by rwa [hdeq]) ?_,
  h.apart_of (t := t) hother fun q hq => ⟨r,by rw [hpc]; rfl,?_⟩,
  fun x hx => (hw x).mpr (.inr (h.written x (by rwa [htail] at hx))),fun x hx => ?_,
  fun x hx => (hread x).mpr (h.gone x (by rwa [htail] at hx)),fun x v hx => ?_,
  fun x hx hunread => ?_,fun x hx => h.pending_of (t := t) hother (by rwa [hdeq] at hx) ?_⟩
 · rw [hself]
   refine InFlight.pcOk ⟨hr.head,hr.max,fun _ => ?_,?_⟩ (by omega)
   · rw [htail,hresv]
     exact hr.range (by omega)
   · simp only [Progress,hop]
     refine ⟨fun j hj => (hw _).mpr ?_,fun j hj => by rw [henq,hp.2 j hj]⟩
     by_cases hji : j = i
     · exact .inl (by rw [hji])
     · exact .inr (hp.1 j (by omega))
 · rw [hself,inFlight_copied] at hq
   cases hq
   exact ⟨rfl,rfl,rfl⟩
 · rw [hresv]
   rcases (hw x).mp hx with rfl | hx
   · omega
   · exact h.reserved x hx
 · rw [hdeq] at hx
   obtain ⟨h1,h2⟩ := h.read x v hx
   exact ⟨(hw x).mpr (.inr h1),by rw [henq]; exact h2⟩
 · rw [hread] at hunread
   rw [hslot,hsize,henq]
   by_cases hxi : x = r.base+i
   · subst hxi
     simp
   · have hx := ((hw x).mp hx).resolve_left hxi
     have hne := h.slot_ne hunread (h.reserved x hx) (y := r.base+i) (by omega) (by omega) hxi
     rw [update_of_ne hne]
     exact h.kept x hx hunread
 · rintro ⟨q,j,hq,hqs,-⟩
   rw [hpc] at hq
   cases hq
   rw [hside] at hqs
   cases hqs

lemma Inv.copyOut (h : Inv s) {max : Nat} (hpc : s.pc t = .copy r i)
 (hop : r.op = .dequeue max) : Inv (s.copy t r i) := by
 obtain ⟨hr,hi⟩ : PcOk s (.copy r i) := hpc ▸ h.pc t
 have hside : r.side = .cons := by rw [Resv.side,hop]; rfl
 obtain ⟨hlow,hhigh⟩ := hr.range (by omega)
 rw [hside] at hlow hhigh
 have hp := hr.progress
 simp only [Progress,hop] at hp
 have hnone : s.deq[r.base+i]? = some none := hp.2 i (le_refl _) hi
 have hfresh : ¬ s.IsRead (r.base+i) := by
  rintro ⟨v,hv⟩
  simp [hnone] at hv
 have hwritten : s.written (r.base+i) = true := h.written _ (by have := h.mid_le; omega)
 have hval : s.ring.slot (s.ring.slotIndex r.head r.n i) = s.enq[r.base+i]? := by
  rw [h.slotIndex hr hi]
  exact h.kept _ hwritten hfresh
 have hlen : r.base+i < s.deq.length := (List.getElem?_eq_some_iff.mp hnone).1
 have hcopy : s.copy t r i = { s with deq := s.deq.set (r.base+i) (some s.enq[r.base+i]?) }.copied
  t { r with out := r.out++[s.enq[r.base+i]?] } (i+1) := by
  simp only [copy,hop,hval]
 rw [hcopy]
 generalize hout : r.out++[s.enq[r.base+i]?] = out
 generalize hs' : ({ s with deq := s.deq.set (r.base+i) (some s.enq[r.base+i]?) } :
  State α n).copied t { r with out := out } (i+1) = s'
 have hself : s'.pc t = if i+1 < r.n then .copy { r with out := out } (i+1)
  else .wait { r with out := out } := by
  simp [← hs',copied]
 have hother : ∀ u, u ≠ t → s'.pc u = s.pc u := fun u hu => by
  simp [← hs',copied,hu]
 have hdeq : s'.deq = s.deq.set (r.base+i) (some s.enq[r.base+i]?) := by rw [← hs']; rfl
 have henq : s'.enq = s.enq := by rw [← hs']; rfl
 have hwr : s'.written = s.written := by rw [← hs']; rfl
 have htail : s'.tail = s.tail := by rw [← hs']; rfl
 have hring : s'.ring = s.ring := by rw [← hs']; rfl
 have hresv : ∀ d, s'.resv d = s.resv d := fun d => by
  cases d
  · simp [henq]
  · simp [hdeq]
 have hget : ∀ x, s'.deq[x]? = if x = r.base+i then some (some s.enq[r.base+i]?)
  else s.deq[x]? := by
  intro x
  rw [hdeq]
  by_cases hx : x = r.base+i
  · subst hx
    simp [getElem?_set_self hlen]
  · simp [hx,getElem?_set_ne (Ne.symm hx)]
 have hread : ∀ x, s'.IsRead x ↔ x = r.base+i ∨ s.IsRead x := by
  intro x
  simp only [State.IsRead,hget]
  by_cases hx : x = r.base+i <;> simp [hx]
 have hg : Grows s s' := ⟨by rw [hring],fun d => le_of_eq (hresv d).symm,
  fun d => by rw [htail],fun x hx => by rwa [hwr],fun x _ => by rw [henq],
  fun x hx => (hread x).mpr (.inr hx)⟩
 refine ⟨hring ▸ h.size,fun d => by rw [hring,hresv,h.head],fun d => by rw [hring,htail,h.tail],
  by rw [htail,hresv]; exact h.cons_le,by rw [htail,hresv]; exact h.mid_le,
  by rw [htail,hresv]; exact h.prod_le,by rw [htail,hresv,hring]; exact h.room,
  h.others hg hother (fun u q _ hq hpos => by rw [htail]; exact ((h.pc u).range hq hpos).1)
   (fun _ _ _ _ _ => by rw [htail]) (fun u q hu hq hqs x hx1 hx2 hx => ?_) ?_,
  h.apart_of hother fun q hq => ⟨r,by rw [hpc]; rfl,?_⟩,
  fun x hx => by rw [hwr]; exact h.written x (by rwa [htail] at hx),
  fun x hx => by rw [hresv]; exact h.reserved x (by rwa [hwr] at hx),
  fun x hx => (hread x).mpr (.inr (h.gone x (by rwa [htail] at hx))),fun x v hx => ?_,
  fun x hx hunread => ?_,fun x hx => ?_⟩
 · -- the entry read is not in the other thread's batch
   rw [hget,if_neg,hx]
   have := h.apart t u (Ne.symm hu) r q (by rw [hpc]; rfl) hq (by rw [hside,hqs])
    (by omega) (by omega)
   omega
 · rw [hself]
   refine InFlight.pcOk (r := { r with out := out }) ⟨hr.head,hr.max,fun _ => ?_,?_⟩ hi
   · rw [htail,hresv]
     exact hr.range (by omega)
   · simp only [Progress,hop]
     refine ⟨fun j hj => (hread _).mpr ?_,fun j hij hj => ?_⟩
     · by_cases hji : j = i
       · exact .inl (by rw [hji])
       · exact .inr (hp.1 j (by omega))
     · rw [hget,if_neg (by omega)]
       exact hp.2 j (by omega) hj
 · rw [hself,inFlight_copied { r with out := out }] at hq
   cases hq
   exact ⟨rfl,rfl,rfl⟩
 · rw [hget] at hx
   rw [hwr,henq]
   split_ifs at hx with hxi
   · subst hxi
     exact ⟨hwritten,by simpa using hx.symm⟩
   · exact h.read x v hx
 · rw [hread,not_or] at hunread
   rw [hring,henq]
   exact h.kept x (by rwa [hwr] at hx) hunread.2
 · rw [hget] at hx
   split_ifs at hx with hxi
   · cases hx
   by_cases hmine : Awaits (s.pc t) x
   · obtain ⟨q,j,hq,-,hlo,hhi⟩ := hmine
     rw [hpc] at hq
     cases hq
     refine ⟨t,{ r with out := out },i+1,?_,hside,show r.base+(i+1) ≤ x by omega,hhi⟩
     rw [hself,if_pos (by omega)]
   · exact h.pending_of hother hx hmine

-- Reserving

/-- What the reservation of a batch does to the history. -/
structure Reserves (s s' : State α n) (r : Resv α) : Prop where
 resv : ∀ d, s'.resv d = s.resv d+if d = r.side then r.n else 0
 enq : ∀ x, x < s.resv .prod → s'.enq[x]? = s.enq[x]?
 unread : ∀ x : Nat, s.deq[x]? = some none → s'.deq[x]? = some none
 read : ∀ (x : Nat) v, s'.deq[x]? = some (some v) ↔ s.deq[x]? = some (some v)
 fresh : ∀ x : Nat, s'.deq[x]? = some none → s.deq[x]? = some none ∨
  (r.side = .cons ∧ r.base ≤ x ∧ x < r.base+r.n)
 progress : Progress s' r 0

lemma reserves (s : State α n) (t : Fin n) (hbase : r.base = s.resv r.side) (hn : r.n ≤ r.op.max) :
 Reserves s ((s.reserve r).copied t r 0) r := by
 cases hop : r.op with
 | enqueue objs =>
  have hside : r.side = .prod := by rw [Resv.side,hop]; rfl
  rw [hside] at hbase
  rw [hop] at hn
  have hlen : (objs.take r.n).length = r.n := by
   rw [length_take]
   exact min_eq_left hn
  have henq : ((s.reserve r).copied t r 0).enq = s.enq++objs.take r.n := by
   simp [reserve,copied,hop]
  have hdeq : ((s.reserve r).copied t r 0).deq = s.deq := by
   simp [reserve,copied,hop]
  refine ⟨fun d => ?_,fun x hx => ?_,fun x hx => by rwa [hdeq],fun x v => by rw [hdeq],
   fun x hx => .inl (by rwa [hdeq] at hx),?_⟩
  · cases d
    · simp only [resv,henq,length_append,hlen,hside,if_true]
    · simp [hdeq,hside]
  · rw [henq]
    exact getElem?_append_left hx
  · simp only [Progress,hop]
    refine ⟨fun j hj => by omega,fun j hj => ?_⟩
    have hj' : r.base+j-s.enq.length = j := by
     rw [hbase]
     exact Nat.add_sub_cancel_left ..
    rw [henq,getElem?_append_right (by rw [hbase]; exact Nat.le_add_right ..),hj',
     getElem?_take_of_lt hj]
 | dequeue max =>
  have hside : r.side = .cons := by rw [Resv.side,hop]; rfl
  rw [hside] at hbase
  have henq : ((s.reserve r).copied t r 0).enq = s.enq := by
   simp [reserve,copied,hop]
  have hdeq : ((s.reserve r).copied t r 0).deq = s.deq++replicate r.n none := by
   simp [reserve,copied,hop]
  refine ⟨fun d => ?_,fun x hx => by rw [henq],fun x hx => ?_,fun x v => ?_,fun x hx => ?_,?_⟩
  · cases d
    · simp [henq,hside]
    · simp [hdeq,hside]
  · rw [hdeq,List.getElem?_append_left (List.getElem?_eq_some_iff.mp hx).1,hx]
  · rw [hdeq]
    by_cases hx : x < s.deq.length
    · rw [List.getElem?_append_left hx]
    · rw [getElem?_append_right (by omega),getElem?_eq_none (by omega : s.deq.length ≤ x)]
      simp [getElem?_replicate]
  · rw [hdeq] at hx
    by_cases hlt : x < s.deq.length
    · rw [getElem?_append_left hlt] at hx
      exact .inl hx
    · rw [List.getElem?_append_right (by omega)] at hx
      have := (List.getElem?_eq_some_iff.mp hx).1
      rw [List.length_replicate] at this
      have hb : r.base = s.deq.length := hbase
      exact .inr ⟨hside,by omega,by omega⟩
  · simp only [Progress,hop]
    refine ⟨fun j hj => by omega,fun j _ hj => ?_⟩
    have hj' : r.base+j-s.deq.length = j := by
     rw [hbase]
     exact Nat.add_sub_cancel_left ..
    rw [hdeq,getElem?_append_right (by rw [hbase]; exact Nat.le_add_right ..),hj']
    simp [hj]

attribute [local simp] State.reserve State.copied

lemma Inv.reserve (h : Inv s) (hpc : s.pc t = .cas r) (hbase : r.base = s.resv r.side)
 (hn : r.n ≤ r.op.max) (hhead : r.head = r.base%2^32)
 (hroom : s.Room r.side (r.base+r.n)) : Inv ((s.reserve r).copied t r 0) := by
 have hres := reserves s t hbase hn
 have hht : ((s.reserve r).copied t r 0).ring = s.ring.setHead r.side r.next := by
  cases hop : r.op <;> simp [hop]
 have htail : ((s.reserve r).copied t r 0).tail = s.tail := by
  cases hop : r.op <;> simp [hop]
 have hwr : ((s.reserve r).copied t r 0).written = s.written := by
  cases hop : r.op <;> simp [hop]
 have hpcs : ((s.reserve r).copied t r 0).pc =
  update s.pc t (if 0 < r.n then .copy r 0 else .wait r) := by
  cases hop : r.op <;> simp [hop]
 generalize (s.reserve r).copied t r 0 = s' at *
 have hother : ∀ u, u ≠ t → s'.pc u = s.pc u := fun u hu => by simp [hpcs,hu]
 have hself : s'.pc t = if 0 < r.n then .copy r 0 else .wait r := by simp [hpcs]
 have hmask : s'.ring.mask = s.ring.mask := by rw [hht]; rfl
 have hread : ∀ x, s'.IsRead x ↔ s.IsRead x := fun x => by simp only [State.IsRead,hres.read]
 have hg : Grows s s' := ⟨hmask,fun d => by rw [hres.resv]; omega,fun d => by rw [htail],
  fun x hx => by rwa [hwr],hres.enq,fun x hx => (hread x).mpr hx⟩
 have h1 := h.cons_le
 have h2 := h.mid_le
 have h3 := h.prod_le
 have h4 := h.room
 refine ⟨by rw [hht]; exact h.size,fun d => ?_,fun d => ?_,?_,?_,?_,?_,
  h.others (t := t) hg hother (fun u q _ hq hpos => by rw [htail]; exact ((h.pc u).range hq hpos).1)
   (fun _ _ _ _ _ => by rw [htail]) (fun _ _ _ _ _ x _ _ hx => hres.unread x hx) ?_,
  fun u v huv => ?_,fun x hx => by rw [hwr]; exact h.written x (by rwa [htail] at hx),
  fun x hx => ?_,fun x hx => (hread x).mpr (h.gone x (by rwa [htail] at hx)),fun x v hx => ?_,
  fun x hx hunread => ?_,fun x hx => ?_⟩
 · have := h.head d
   by_cases hd : d = r.side
   · subst hd
     rw [hht,hres.resv,if_pos rfl,← hbase]
     simp only [OdphRing.setHead,update_self,Resv.next,hhead]
     exact add32_mod ..
   · rw [hht,hres.resv,if_neg hd]
     simpa [hd] using this
 · have := h.tail d
   by_cases hd : d = r.side
   · subst hd
     rw [hht,htail]
     simpa using this
   · rw [hht,htail]
     simpa [hd] using this
 · rw [htail,hres.resv]
   omega
 · rw [htail,hres.resv]
   split_ifs with hd
   · rw [← hd] at hroom hbase
     rw [← hbase]
     exact hroom
   · omega
 · rw [htail,hres.resv]
   omega
 · rw [htail,hres.resv,hmask]
   split_ifs with hd
   · rw [← hd] at hroom hbase
     rw [← hbase]
     exact hroom
   · omega
 · rw [hself]
   refine InFlight.pcOk ⟨hhead,hn,fun _ => ⟨?_,?_⟩,hres.progress⟩ (zero_le _)
   · rw [htail,hbase]
     exact (h.resv_le r.side).1
   · rw [hres.resv,if_pos rfl,hbase]
 · -- other batches on this side end where this one begins
   have hold : ∀ w q, w ≠ t → (s'.pc w).inFlight = some q → q.side = r.side → 0 < q.n →
    q.base+q.n ≤ r.base := by
    intro w q hw hq hqs hpos
    rw [hother w hw] at hq
    have := ((h.pc w).range hq hpos).2
    rw [hbase,← hqs]
    exact this
   intro a b ha hb hside hpos hpos'
   by_cases hu : u = t
   · subst hu
     rw [hself,inFlight_copied] at ha
     cases ha
     exact .inr (hold v b (Ne.symm huv) hb hside.symm hpos')
   · by_cases hv : v = t
     · subst hv
       rw [hself,inFlight_copied] at hb
       cases hb
       exact .inl (hold u a hu ha hside hpos)
     · rw [hother u hu] at ha
       rw [hother v hv] at hb
       exact h.apart u v huv a b ha hb hside hpos hpos'
 · have := h.reserved x (by rwa [hwr] at hx)
   rw [hres.resv]
   omega
 · rw [hres.read] at hx
   obtain ⟨h5,h6⟩ := h.read x v hx
   exact ⟨by rwa [hwr],by rw [hres.enq x (h.reserved x h5)]; exact h6⟩
 · rw [hread] at hunread
   rw [hwr] at hx
   rw [hht,hres.enq x (h.reserved x hx)]
   exact h.kept x hx hunread
 · rcases hres.fresh x hx with hx | ⟨hside,hlo,hhi⟩
   · exact h.pending_of (t := t) hother hx (by simp [Awaits,hpc])
   · exact ⟨t,r,0,by rw [hself,if_pos (by omega)],hside,hlo,hhi⟩

-- All steps

lemma batch_le {d : Side} {b : Behavior} {max avail k : Nat} (h : batch d b max avail = .ok k) :
 k ≤ avail ∧ k ≤ max := by
 unfold batch at h
 cases b <;> simp only at h <;> split_ifs at h <;> cases h <;> omega

lemma Inv.room_of_avail (h : Inv s) {d : Side} {k : Nat}
 (hk : k ≤ s.ring.avail d (s.resv d%2^32)) : s.Room d (s.resv d+k) := by
 have hmask := h.mask_lt
 have h1 := h.cons_le
 have h2 := h.mid_le
 have h3 := h.prod_le
 have h4 := h.room
 cases d with
 | prod =>
  have hsum : add32 s.ring.mask (s.tail .cons%2^32) = (s.tail .cons+s.ring.mask)%2^32 := by
   unfold add32
   omega
  simp only [OdphRing.avail,h.tail,hsum] at hk
  rw [sub32_mod h4 (by omega)] at hk
  show _ ≤ s.tail .cons+s.ring.mask
  omega
 | cons =>
  simp only [OdphRing.avail,h.tail] at hk
  rw [sub32_mod h2 (by omega)] at hk
  show _ ≤ s.tail .prod
  omega

lemma Inv.advance (h : Inv s) (hb : CasBounded s (s.pc t)) (he : StoreOk s (s.pc t))
 (hs : s.advance t = some s') : Inv s' := by
 have hok := h.pc t
 cases hpc : s.pc t with
 | idle last => simp [State.advance,hpc] at hs
 | top op b =>
  simp only [State.advance,hpc,Option.some.injEq] at hs
  subst hs
  exact h.setPc ⟨h.head op.side,le_refl _⟩ (by simp) (by simp [hpc])
 | gotHead op b head base =>
  rw [hpc] at hok
  obtain ⟨hhead,hle⟩ := hok
  simp only [State.advance,hpc] at hs
  split at hs <;> cases hs
  · exact h.setPc trivial (by simp) (by simp [hpc])
  · next k hk =>
    obtain ⟨hk1,hk2⟩ := batch_le hk
    refine h.setPc ⟨hhead,hk2,hle,fun heq => ?_⟩ (by simp) (by simp [hpc])
    have heq : s.resv op.side = base := heq
    rw [hhead,← heq] at hk1
    exact heq ▸ h.room_of_avail hk1
 | cas r =>
  rw [hpc] at hok hb
  obtain ⟨hhead,hn,hle,hroom⟩ := hok
  simp only [State.advance,hpc] at hs
  split at hs <;> cases hs
  · next heq =>
    have hbase : s.resv r.side = r.base := eq_of_mod32 (by rw [← h.head,heq,hhead]) hle hb
    exact h.reserve hpc hbase.symm hn hhead (hroom hbase)
  · exact h.setPc trivial (by simp) (by simp [hpc])
 | copy r i =>
  simp only [State.advance,hpc,Option.some.injEq] at hs
  subst hs
  cases hop : r.op with
  | enqueue objs => exact h.copyIn hpc hop
  | dequeue max => exact h.copyOut hpc hop
 | wait r =>
  rw [hpc] at hok
  simp only [State.advance,hpc] at hs
  split at hs <;> cases hs
  · next heq =>
    refine h.setPc ⟨hok,fun hpos => ?_⟩ (fun q hq => by rw [hpc]; exact hq) (by simp [hpc])
    -- the tail is less than a round behind the batch
    have hrange := InFlight.range hok hpos
    have hlen := h.resv_le r.side
    have hmask := h.mask_lt
    exact (eq_of_mod32 (by rw [← h.tail,heq,InFlight.head hok]) hrange.1 (by omega)).symm
  · exact h
 | store r =>
  rw [hpc] at he
  simp only [State.advance,hpc,Option.some.injEq] at hs
  subst hs
  exact h.store hpc he

lemma step_inv {a : Action α n} (h : Inv s) (hb : Bounded s a) (he : EmptyOk s a)
 (hs : step s a = some s') : Inv s' := by
 cases a with
 | call t op b =>
  simp only [step] at hs
  split at hs
  · next hpc =>
    cases hs
    exact h.setPc trivial (by simp) (by simp [hpc])
  · cases hs
 | step t => exact h.advance hb he hs

lemma init_inv (h : Init s) : Inv s := by
 obtain ⟨k,hk,rfl⟩ := h
 refine ⟨⟨k,hk,rfl⟩,?_,?_,?_,?_,?_,?_,fun t => trivial,?_,?_,?_,?_,?_,?_,?_⟩
 · rintro (_ | _) <;> rfl
 · rintro (_ | _) <;> rfl
 all_goals simp [Apart]

end Steps

/-- **The ring is a queue.** If no empty batch moves a tail back, a consumer reads the object
reserved for its entry; an object that is written and not yet read is in its slot, and a slot is
used again once its object is read; when no consumer has entries left to read, what was read is a
prefix of what was reserved, in the order of the reservations. -/
theorem ring_fifo {s : State α n}
 (h : Transition.Reach Init step (fun s a => Bounded s a ∧ EmptyOk s a) s) :
 (∀ (i : Nat) v, s.deq[i]? = some (some v) →
  s.written i = true ∧ ∃ x, v = some x ∧ s.enq[i]? = some x) ∧
 (∀ i, s.written i = true → (∀ v, s.deq[i]? ≠ some (some v)) →
  s.ring.slot (i%s.ring.size) = s.enq[i]?) ∧ (∀ t r i, s.pc t = .copy r i → r.side = .prod →
  s.ring.slotIndex r.head r.n i = (r.base+i)%s.ring.size ∧
  (s.ring.size ≤ r.base+i → ∃ v, s.deq[r.base+i-s.ring.size]? = some (some v))) ∧
 s.deq.length ≤ s.enq.length ∧ ((∀ t r i, s.pc t = .copy r i → r.side = .prod) →
  s.deq = (s.enq.take s.deq.length).map fun x => some (some x)) := by
 have hi : Inv s := h.invariant (fun _ => init_inv) fun _ _ _ hi ha => step_inv hi ha.1 ha.2
 have hlen : s.deq.length ≤ s.enq.length := le_trans hi.mid_le hi.prod_le
 have hread : ∀ (i : Nat) v, s.deq[i]? = some (some v) →
  s.written i = true ∧ ∃ x, v = some x ∧ s.enq[i]? = some x := by
  intro i v hv
  obtain ⟨hw,rfl⟩ := hi.read i v hv
  have hlt : i < s.enq.length := hi.reserved i hw
  exact ⟨hw,s.enq[i],getElem?_eq_getElem hlt,getElem?_eq_getElem hlt⟩
 refine ⟨hread,fun i hw hunread => hi.kept i hw (fun ⟨v,hv⟩ => hunread v hv),
  fun t r i hpc hside => ?_,hlen,fun hdone => ?_⟩
 · obtain ⟨hr,hlt⟩ : PcOk s (.copy r i) := hpc ▸ hi.pc t
   refine ⟨hi.slotIndex hr hlt,fun hbig => hi.gone _ ?_⟩
   have hrange := (hr.range (by omega)).2
   rw [hside] at hrange
   have := hi.room
   have := hi.size_eq
   omega
 · apply ext_getElem?
   intro x
   rw [getElem?_map,getElem?_take]
   by_cases hx : x < s.deq.length
   · rw [if_pos hx]
     cases hv : s.deq[x] with
     | none =>
      obtain ⟨t,r,i,hpc,hside,-⟩ := hi.pending x (by rw [getElem?_eq_getElem hx,hv])
      rw [hdone t r i hpc] at hside
      cases hside
     | some v =>
      obtain ⟨-,y,rfl,hy⟩ := hread x v (by rw [getElem?_eq_getElem hx,hv])
      rw [getElem?_eq_getElem hx,hv,hy]
      rfl
   · rw [if_neg hx,getElem?_eq_none (by omega)]
     rfl

/-- Two producers and a consumer on a ring of four slots. -/
def demo : State Nat 3 :=
 ⟨.create (2^2),fun _ => .idle none,[],[],fun _ => false,fun _ => 0⟩

lemma demo_init : Init demo := ⟨2,by decide,rfl⟩

/-- The second producer copies first but waits for the first one; the consumer then takes both
objects. -/
theorem ring_fifo_two_producers : ∃ s : State Nat 3,
 Transition.Reach Init step (fun s a => Bounded s a ∧ EmptyOk s a) s ∧
 (s.enq = [7,8] ∧ s.deq.length = 2 ∧ ∀ t, ∃ last, s.pc t = .idle last) ∧
 s.deq = [some (some 7),some (some 8)] := by
 have h0 : Transition.Reach Init step (fun s a => Bounded s a ∧ EmptyOk s a) demo :=
  .start demo_init
 obtain ⟨s,hs,henq,hdeq,h1,h2,h3⟩ := h0.exists_of_run
  [.call 0 (.enqueue [7]) .fixed,.call 1 (.enqueue [8]) .fixed,.call 2 (.dequeue 3) .vary,
   .step 0,.step 0,.step 0,.step 1,.step 1,.step 1,.step 1,.step 1,.step 0,.step 0,.step 0,
   .step 1,.step 1,.step 2,.step 2,.step 2,.step 2,.step 2,.step 2,.step 2]
  (fun s => s.enq = [7,8] ∧ s.deq.length = 2 ∧ s.pc 0 = .idle (some (0,[])) ∧
   s.pc 1 = .idle (some (0,[])) ∧ s.pc 2 = .idle (some (2,[some 7,some 8]))) (by decide)
 have hidle : ∀ t, ∃ last, s.pc t = .idle last := by
  intro t
  match t with
  | 0 => exact ⟨_,h1⟩
  | 1 => exact ⟨_,h2⟩
  | 2 => exact ⟨_,h3⟩
 refine ⟨s,hs,⟨henq,hdeq,hidle⟩,?_⟩
 have hall := (ring_fifo hs).2.2.2.2 fun t r i hpc => by
  obtain ⟨last,hl⟩ := hidle t
  simp [hl] at hpc
 rw [hall,hdeq,henq]
 rfl

/-- A producer with an empty batch writes the tail after others have passed it. The tail is back at
0 with the consumers' head at 1, and the next consumer takes what was never written. -/
theorem ring_fifo_broken : ∃ s : State Nat 3, Transition.Reach Init step Bounded s ∧
 ¬ ∀ (i : Nat) v, s.deq[i]? = some (some v) →
  s.written i = true ∧ ∃ x, v = some x ∧ s.enq[i]? = some x := by
 have h0 : Transition.Reach Init step Bounded demo := .start demo_init
 obtain ⟨s,hs,hread,hnot⟩ := h0.exists_of_run
  [.call 0 (.enqueue []) .fixed,.step 0,.step 0,.step 0,.step 0,
   .call 1 (.enqueue [7]) .fixed,.step 1,.step 1,.step 1,.step 1,.step 1,.step 1,
   .call 2 (.dequeue 1) .fixed,.step 2,.step 2,.step 2,.step 2,.step 2,.step 2,
   .step 0,
   .call 2 (.dequeue 1) .fixed,.step 2,.step 2,.step 2,.step 2]
  (fun s => s.deq[1]? = some (some none) ∧ s.written 1 = false) (by decide)
 refine ⟨s,hs,fun h => ?_⟩
 simp [(h 1 none hread).1] at hnot

end Packages.Ring
