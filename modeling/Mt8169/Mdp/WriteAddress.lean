import Mt8169.Lib.MachineInt
import Mt8169.Lib.Runs
import Mathlib.Data.List.Perm.Basic

/-!
# Write buffers and their accounts

A write buffer is allocated for a client and, if the request comes through an open file, for that
file. Its record does not keep the client: a free request names a client of its own, and finds the
buffer by its physical address or by the file. The accounts are compared with the records over all
sequences of requests.
-/

namespace Mt8169.Mdp

open MachineInt Runs List Function

/-- `enum CMDQ_CLT_ENUM`, without the closing value that indexes the total. -/
inductive Client
  | unknown
  | mdp
  | cmdq
  | general
  | display
deriving DecidableEq

/-- `CMDQ_MAX_WRITE_ADDR_COUNT`: the words of a page. -/
def maxWriteAddrCount : ℕ := 1024

/-- `mdp_rb_pool_limit` -/
def rbPoolLimit : ℕ := 256

/-- `struct WriteAddrStruct`: the address, the file and whether the buffer is from the pool. The
field `clt` is not in the source: it remembers the client of the allocation. -/
structure WriteAddrStruct where
  pa : ℕ
  fp : Option ℕ
  pool : Bool
  clt : Client
deriving DecidableEq

/-- The list of the records with the counters: `write_addr_cnt`, `cmdq_alloc_cnt` for the clients
and for all of them, and `mdp_rb_pool_cnt`. -/
structure WriteAddrs where
  list : List WriteAddrStruct
  addrCnt : ℤ
  allocCnt : Client → ℤ
  allocTotal : ℤ
  poolCnt : ℤ

namespace WriteAddrs

variable {rs : List WriteAddrStruct} {clt : Client} {s s' : WriteAddrs}

/-- Nothing is allocated. -/
def empty : WriteAddrs := ⟨[], 0, fun _ => 0, 0, 0⟩

/-- What the allocators of the kernel answer: whether `kzalloc` gives a record, and the addresses
given by the pool and by `dma_alloc_coherent`. -/
structure Answers where
  record : Bool
  pool : Option ℕ
  dma : Option ℕ

/-- `mdp_pool_alloc_impl`, with the counter. The comparison with the limit is unsigned. -/
def poolAllocImpl (cnt : ℤ) (answer : Option ℕ) : Option ℕ × ℤ :=
  if rbPoolLimit < u32 (cnt + 1) then (none, cnt)
  else
    match answer with
    | none => (none, cnt)
    | some pa => (some pa, cnt + 1)

/-- `mdp_pool_free_impl`, on the counter. -/
def poolFreeImpl (cnt : ℤ) : ℤ := if cnt ≤ 0 then cnt else cnt - 1

/-- A buffer is charged to a client. -/
def charge (s : WriteAddrs) (clt : Client) (n : ℤ) : WriteAddrs :=
  { s with
    allocTotal := s.allocTotal + n
    allocCnt := update s.allocCnt clt (s.allocCnt clt + n) }

/-- `cmdq_core_alloc_hw_buffer_clt`: the address and whether it is from the pool. -/
def allocHwBufferClt (s : WriteAddrs) (clt : Client) (answers : Answers) :
    Option (ℕ × Bool) × WriteAddrs :=
  match poolAllocImpl s.poolCnt answers.pool with
  | (some pa, cnt) => (some (pa, true), { s with poolCnt := cnt }.charge clt 1)
  | (none, cnt) =>
    match answers.dma with
    | none => (none, { s with poolCnt := cnt })
    | some pa => (some (pa, false), { s with poolCnt := cnt }.charge clt 1)

/-- `cmdq_core_free_hw_buffer_clt` -/
def freeHwBufferClt (s : WriteAddrs) (clt : Client) (pool : Bool) : WriteAddrs :=
  let s := s.charge clt (-1)
  if pool then { s with poolCnt := poolFreeImpl s.poolCnt } else s

/-- `cmdqCoreAllocWriteAddress` -/
def allocWriteAddress (s : WriteAddrs) (count : ℕ) (clt : Client) (fp : Option ℕ)
    (answers : Answers) : WriteAddrs :=
  if count = 0 ∨ maxWriteAddrCount < count then s
  else if answers.record = false then s
  else
    match s.allocHwBufferClt clt answers with
    | (none, s) => s
    | (some (pa, pool), s) =>
      { s with
        list := s.list ++ [⟨pa, fp, pool, clt⟩]
        addrCnt := s.addrCnt + 1 }

/-- The buffer of a record that is no longer listed is released, and the record with it. -/
def release (s : WriteAddrs) (clt : Client) (r : WriteAddrStruct) : WriteAddrs :=
  let s := s.freeHwBufferClt clt r.pool
  { s with addrCnt := s.addrCnt - 1 }

/-- `cmdqCoreFreeWriteAddress` -/
def freeWriteAddress (s : WriteAddrs) (pa : ℕ) (clt : Client) : WriteAddrs :=
  match s.list.find? (·.pa = pa) with
  | none => s
  | some r => { s with list := s.list.eraseP (·.pa = pa) }.release clt r

/-- `cmdqCoreFreeWriteAddressByNode` -/
def freeWriteAddressByNode (s : WriteAddrs) (fp : Option ℕ) (clt : Client) : WriteAddrs :=
  (s.list.filter (·.fp = fp)).foldl (fun s r => s.release clt r)
    { s with list := s.list.filter (¬ ·.fp = fp) }

/-- The requests. A kernel client has no file, and one that frees by address may come through a
file (the ioctl of the driver) or not. -/
inductive Request
  | alloc (count : ℕ) (clt : Client) (fp : Option ℕ) (answers : Answers)
  | free (issuer : Option ℕ) (pa : ℕ) (clt : Client)
  | freeByNode (fp : Option ℕ) (clt : Client)

def step (s : WriteAddrs) : Request → WriteAddrs
  | .alloc count clt fp answers => s.allocWriteAddress count clt fp answers
  | .free _ pa clt => s.freeWriteAddress pa clt
  | .freeByNode fp clt => s.freeWriteAddressByNode fp clt

/-- The number of live buffers allocated with a client. -/
def live (s : WriteAddrs) (c : Client) : ℕ := s.list.countP (·.clt = c)

/-- The counters agree with the records. -/
structure Counted (s : WriteAddrs) : Prop where
  clients : ∀ c, s.allocCnt c = s.live c
  total : s.allocTotal = s.list.length
  addrs : s.addrCnt = s.list.length

/-- The records that a request releases. -/
def released (s : WriteAddrs) : Request → List WriteAddrStruct
  | .alloc .. => []
  | .free _ pa _ => (s.list.find? (·.pa = pa)).toList
  | .freeByNode fp _ => s.list.filter (·.fp = fp)

/-- The file through which a request is made. -/
def Request.file : Request → Option ℕ
  | .alloc _ _ fp _ => fp
  | .free issuer _ _ => issuer
  | .freeByNode fp _ => fp

/-- The client that a free request names. -/
def Request.client : Request → Client
  | .alloc _ clt _ _ => clt
  | .free _ _ clt => clt
  | .freeByNode _ clt => clt

/-- A record was made through another file than the one given. -/
def Foreign (file : Option ℕ) (r : WriteAddrStruct) : Prop :=
  ∃ f g, file = some f ∧ r.fp = some g ∧ g ≠ f

/-- A request leaves the counters right, and no record that it takes off the list is of another
file. -/
def Accounted (s : WriteAddrs) (q : Request) : Prop :=
  Counted (s.step q) ∧ ∀ r, (s.step q).list.count r < s.list.count r → ¬ Foreign q.file r

/-- A request releases buffers of its own client and of no other file. -/
def Entitled (s : WriteAddrs) (q : Request) : Prop :=
  ∀ r ∈ s.released q, r.clt = q.client ∧ ¬ Foreign q.file r

/-- The records are those of another state, less one list of them, and the counters were lowered
once for each, on the account of one client. -/
structure Lowered (s : WriteAddrs) (clt : Client) (rs : List WriteAddrStruct) (s' : WriteAddrs) :
    Prop where
  clients : s'.allocCnt = update s.allocCnt clt (s.allocCnt clt - rs.length)
  total : s'.allocTotal = s.allocTotal - rs.length
  addrs : s'.addrCnt = s.addrCnt - rs.length
  list : s.list.Perm (rs ++ s'.list)

theorem countP_length_iff : rs.countP (·.clt = clt) = rs.length ↔ ∀ r ∈ rs, r.clt = clt := by
  simp [countP_eq_length]

/-- A release takes its records off the counts of their clients. -/
theorem Lowered.live_eq (h : Lowered s clt rs s') (c : Client) :
    s.live c = rs.countP (·.clt = c) + s'.live c := by
  unfold live
  rw [h.list.countP_eq, countP_append]

theorem Lowered.length_eq (h : Lowered s clt rs s') :
    s.list.length = rs.length + s'.list.length := by
  rw [h.list.length_eq, length_append]

/-- A record is removed if it is one of those released. -/
theorem Lowered.count_lt_iff (h : Lowered s clt rs s') (r : WriteAddrStruct) :
    s'.list.count r < s.list.count r ↔ r ∈ rs := by
  rw [h.list.count_eq, count_append, ← count_pos_iff]
  omega

/-- The counts stay right exactly if the client is the one of the records. -/
theorem Lowered.counted_iff (h : Lowered s clt rs s') (hs : Counted s) :
    Counted s' ↔ ∀ r ∈ rs, r.clt = clt := by
  have hown : s'.allocCnt clt = s.live clt - rs.length := by
    rw [h.clients, update_self, hs.clients]
  have hlive := h.live_eq clt
  rw [← countP_length_iff]
  constructor
  · intro hs'
    have := hs'.clients clt
    omega
  · intro hall
    refine ⟨fun c => ?_, ?_, ?_⟩
    · by_cases hc : c = clt
      · subst hc
        omega
      · -- No record of another client is among them.
        have hnone : rs.countP (·.clt = c) = 0 := by
          rw [countP_eq_zero]
          intro r hr heq
          have hclt := countP_length_iff.mp hall r hr
          exact hc ((of_decide_eq_true heq).symm.trans hclt)
        have hother := h.live_eq c
        rw [h.clients, update_of_ne hc, hs.clients]
        omega
    · have htotal := h.total
      have hlength := h.length_eq
      have := hs.total
      omega
    · have haddrs := h.addrs
      have hlength := h.length_eq
      have := hs.addrs
      omega

theorem foldl_release (rs : List WriteAddrStruct) (clt : Client) (s : WriteAddrs) :
    (rs.foldl (fun s r => s.release clt r) s).allocCnt =
        update s.allocCnt clt (s.allocCnt clt - rs.length) ∧
      (rs.foldl (fun s r => s.release clt r) s).allocTotal = s.allocTotal - rs.length ∧
      (rs.foldl (fun s r => s.release clt r) s).addrCnt = s.addrCnt - rs.length ∧
      (rs.foldl (fun s r => s.release clt r) s).list = s.list := by
  induction rs generalizing s with
  | nil => simp
  | cons r rs ih =>
    have hone : (s.release clt r).allocCnt = update s.allocCnt clt (s.allocCnt clt - 1) ∧
        (s.release clt r).allocTotal = s.allocTotal - 1 ∧
        (s.release clt r).addrCnt = s.addrCnt - 1 ∧ (s.release clt r).list = s.list := by
      cases hpool : r.pool <;> simp [release, freeHwBufferClt, charge, hpool, Int.sub_eq_add_neg]
    obtain ⟨hclients, htotal, haddrs, hlist⟩ := hone
    obtain ⟨ihclients, ihtotal, ihaddrs, ihlist⟩ := ih (s.release clt r)
    rw [foldl_cons, length_cons]
    refine ⟨?_, ?_, ?_, ihlist.trans hlist⟩
    · rw [ihclients, hclients, update_idem, update_self]
      congr 1
      omega
    all_goals omega

theorem perm_eraseP {l : List WriteAddrStruct} {pa : ℕ} {r : WriteAddrStruct}
    (h : l.find? (·.pa = pa) = some r) : l.Perm (r :: l.eraseP (·.pa = pa)) := by
  induction l with
  | nil => simp at h
  | cons x l ih =>
    by_cases hx : x.pa = pa
    · simp only [find?_cons, hx, decide_true] at h
      obtain rfl := Option.some.inj h
      simp [hx]
    · simp only [find?_cons, hx, decide_false] at h
      rw [eraseP_cons_of_neg (by simpa using hx)]
      exact ((ih h).cons x).trans (List.Perm.swap ..)

theorem freeWriteAddress_lowered (s : WriteAddrs) (pa : ℕ) (clt : Client) :
    Lowered s clt (s.list.find? (·.pa = pa)).toList (s.freeWriteAddress pa clt) := by
  unfold freeWriteAddress
  cases hfind : s.list.find? (·.pa = pa) with
  | none => exact ⟨by simp, by simp, by simp, List.Perm.refl _⟩
  | some r =>
    have hperm := perm_eraseP hfind
    obtain ⟨hclients, htotal, haddrs, hlist⟩ :=
      foldl_release [r] clt { s with list := s.list.eraseP (·.pa = pa) }
    refine ⟨hclients, htotal, haddrs, ?_⟩
    rw [show (release _ clt r).list = s.list.eraseP (·.pa = pa) from hlist]
    exact hperm

theorem freeWriteAddressByNode_lowered (s : WriteAddrs) (fp : Option ℕ) (clt : Client) :
    Lowered s clt (s.list.filter (·.fp = fp)) (s.freeWriteAddressByNode fp clt) := by
  obtain ⟨hclients, htotal, haddrs, hlist⟩ :=
    foldl_release (s.list.filter (·.fp = fp)) clt { s with list := s.list.filter (¬ ·.fp = fp) }
  refine ⟨hclients, htotal, haddrs, ?_⟩
  unfold freeWriteAddressByNode
  rw [hlist]
  simpa only [decide_not] using (filter_append_perm (fun r => decide (r.fp = fp)) s.list).symm

theorem allocWriteAddress_list (s : WriteAddrs) (count : ℕ) (clt : Client) (fp : Option ℕ)
    (answers : Answers) :
    ∃ new, (s.allocWriteAddress count clt fp answers).list = s.list ++ new := by
  unfold allocWriteAddress allocHwBufferClt
  rcases poolAllocImpl s.poolCnt answers.pool with ⟨pa | pa, cnt⟩
  · cases answers.dma with
    | none => exact ⟨[], by split_ifs <;> simp⟩
    | some pa =>
      split_ifs
      · exact ⟨[], (append_nil _).symm⟩
      · exact ⟨[], (append_nil _).symm⟩
      · exact ⟨_, rfl⟩
  · split_ifs
    · exact ⟨[], (append_nil _).symm⟩
    · exact ⟨[], (append_nil _).symm⟩
    · exact ⟨_, rfl⟩

/-- The records that a request takes off the list are the released ones. -/
theorem count_step_lt_iff (s : WriteAddrs) (q : Request) (r : WriteAddrStruct) :
    (s.step q).list.count r < s.list.count r ↔ r ∈ s.released q := by
  cases q with
  | alloc count clt fp answers =>
    obtain ⟨new, hlist⟩ := s.allocWriteAddress_list count clt fp answers
    rw [step, hlist, count_append]
    exact ⟨fun hlt => by omega, fun hr => absurd hr not_mem_nil⟩
  | free issuer pa clt => exact (freeWriteAddress_lowered s pa clt).count_lt_iff r
  | freeByNode fp clt => exact (freeWriteAddressByNode_lowered s fp clt).count_lt_iff r

/-- An allocation keeps the counts right. -/
theorem allocWriteAddress_counted (hs : Counted s) (count : ℕ) (clt : Client) (fp : Option ℕ)
    (answers : Answers) : Counted (s.allocWriteAddress count clt fp answers) := by
  have hlisted : ∀ (cnt : ℤ) (r : WriteAddrStruct), r.clt = clt →
      Counted { { s with poolCnt := cnt }.charge clt 1 with
        list := s.list ++ [r], addrCnt := s.addrCnt + 1 } := by
    intro cnt r hr
    refine ⟨fun c => ?_, ?_, ?_⟩
    · have hc := hs.clients c
      by_cases heq : c = clt
      · subst heq
        simp only [charge, update_self, live, countP_append, countP_singleton,
          hr, decide_true, if_true] at hc ⊢
        omega
      · have hne : ¬ r.clt = c := fun h => heq (h.symm.trans hr)
        simp only [charge, update_of_ne heq, live, countP_append,
          countP_singleton, hne, decide_false, Bool.false_eq_true, if_false] at hc ⊢
        omega
    · have := hs.total
      simp only [charge, length_append, length_singleton]
      omega
    · have := hs.addrs
      simp only [length_append, length_singleton]
      omega
  have hsame : ∀ cnt : ℤ, Counted { s with poolCnt := cnt } :=
    fun _ => { hs with }
  unfold allocWriteAddress allocHwBufferClt
  rcases poolAllocImpl s.poolCnt answers.pool with ⟨pa | pa, cnt⟩
  · cases answers.dma with
    | none =>
      split_ifs
      · exact hs
      · exact hs
      · exact hsame cnt
    | some pa =>
      split_ifs
      · exact hs
      · exact hs
      · exact hlisted cnt _ rfl
  · split_ifs
    · exact hs
    · exact hs
    · exact hlisted cnt _ rfl

/-- A step keeps the counts right exactly if it names the client of the records. -/
theorem counted_step_iff (hs : Counted s) (q : Request) :
    Counted (s.step q) ↔ ∀ r ∈ s.released q, r.clt = q.client := by
  cases q with
  | alloc count clt fp answers =>
    have h := allocWriteAddress_counted hs count clt fp answers
    exact ⟨fun _ _ hr => absurd hr not_mem_nil, fun _ => h⟩
  | free issuer pa clt => exact (freeWriteAddress_lowered s pa clt).counted_iff hs
  | freeByNode fp clt => exact (freeWriteAddressByNode_lowered s fp clt).counted_iff hs

/-- A step is accounted for exactly if it is entitled. -/
theorem accounted_iff_entitled (hs : Counted s) (q : Request) : Accounted s q ↔ Entitled s q := by
  unfold Accounted Entitled
  simp only [counted_step_iff hs, count_step_lt_iff]
  exact forall₂_and.symm

/-- Over a sequence of requests the counters always agree with the live buffers, and no request
releases a buffer of another file, exactly when every request releases only buffers that were
allocated with the client it names and through no other file. -/
theorem run_accounted_iff (qs : List Request) :
    RunOk step Accounted empty qs ↔ RunOk step Entitled empty qs := by
  apply runOk_congr Counted
  · exact fun s q hs => accounted_iff_entitled hs q
  · exact fun s q _ hacc => hacc.1
  · exact ⟨fun _ => rfl, rfl, rfl⟩

/-- The allocators of the kernel give a buffer at an address. -/
def answering (pa : ℕ) : Answers := ⟨true, none, some pa⟩

/-- A second file frees by address the buffer of a first. -/
def stolenFree : List Request :=
  [.alloc 1 .mdp (some 1) (answering 4096), .free (some 2) 4096 .mdp]

/-- The buffer of the first file is released through the second one. -/
theorem not_run_accounted_stolenFree : ¬ RunOk step Accounted empty stolenFree := by
  rintro ⟨-, ⟨-, hown⟩, -⟩
  apply hown ⟨4096, some 1, false, .mdp⟩
  · decide
  · exact ⟨2, 1, rfl, rfl, by decide⟩

end WriteAddrs

end Mt8169.Mdp
