import Xmhf.Utpm.Bank
import Xmhf.Crypto.Proof.Sha1

/-!
# The PCR bank as logs of measurements

A PCR stands for the measurements that were extended into it since the instance was initialised, in their order:
its value is what they replay to. The bank refines a log for each PCR.

* `utpmExtend_eq`: extending a PCR appends to its log and leaves the other PCRs alone.
* `Request.serve_eq`: a request on the bank and on the logs.
* `serveAll_eq`: any number of requests.
-/

namespace Xmhf.Utpm

open Xmhf.Memory Xmhf.Bytes Xmhf.Crypto Xmhf.Fips180

/-! ## Logs -/

/-- `H( pcr || measurement)` -/
def extendDigest (pcr measurement : TpmDigest) : TpmDigest :=
  ⟨sha1 (pcr.value ++ measurement.value), length_sha1 _⟩

/-- The value of a PCR with these measurements. -/
def replay (measurements : List TpmDigest) : TpmDigest := measurements.foldl extendDigest zeroDigest

/-- The measurements of each PCR. -/
abbrev PcrLog := Fin tpmPcrNum → List TpmDigest

/-- The bank that a log replays to. -/
def PcrLog.bank (log : PcrLog) : PcrBank := fun i => replay (log i)

/-- The log after a request. -/
def Request.record (log : PcrLog) : Request → PcrLog
  | .init => fun _ => []
  | .pcrread _ _ => log
  | .extend _ _ none _ => log
  | .extend _ _ (some measurement) pcrNum =>
    fun i => if i.val = pcrNum then log i ++ [measurement] else log i

/-- What the caller is to see. -/
def Request.answer (log : PcrLog) : Request → Answer
  | .init => (utpmSuccess, none)
  | .pcrread none _ => (utpmErrBadParam, none)
  | .pcrread (some pcrValue) pcrNum =>
    if h : pcrNum < tpmPcrNum then (utpmSuccess, some (replay (log ⟨pcrNum, h⟩)))
    else (utpmErrPcrOutOfRange, some pcrValue)
  | .extend _ _ none _ => (utpmErrBadParam, none)
  | .extend _ _ (some _) pcrNum => (if pcrNum < tpmPcrNum then utpmSuccess else utpmErrPcrOutOfRange, none)

/-- The requests that abort: an extend that could be made, but for the memory of the hash. -/
def Request.aborts : Request → Bool
  | .extend malloc _ (some _) pcrNum => !malloc && decide (pcrNum < tpmPcrNum)
  | _ => false

/-- The answers to requests in order. -/
def answers (log : PcrLog) : List Request → List Answer
  | [] => []
  | r :: rs => r.answer log :: answers (r.record log) rs

/-! ## Refinement -/

variable {log : PcrLog}

theorem replay_append (measurements : List TpmDigest) (measurement : TpmDigest) :
    replay (measurements ++ [measurement]) = extendDigest (replay measurements) measurement :=
  List.foldl_append

theorem storedDigest_ok {digest : Octets} (h : digest.length = tpmHashSize) :
    storedDigest (.ok digest) = some ⟨digest, h⟩ := by
  simp [storedDigest, Except.toOption, h]

/-- The hash of a PCR and a measurement, in two buffers. -/
theorem storedDigest_eq (malloc : Bool) (buf : Mem) (pcr measurement : TpmDigest) :
    storedDigest (hashMemoryMulti (sha1Desc buf) malloc tpmHashSize [pcr.value, measurement.value]) =
      if malloc then some (extendDigest pcr measurement) else none := by
  have hroom : ¬tpmHashSize < (sha1Desc buf).hashsize := Nat.lt_irrefl 20
  have hflat : [pcr.value, measurement.value].flatten = pcr.value ++ measurement.value := by simp
  rw [(sha1Desc_computes buf).hashMemoryMulti_eq, if_neg hroom, hflat]
  cases malloc
  · rfl
  · rw [if_pos rfl, if_pos rfl]
    exact storedDigest_ok (length_sha1 _)

/-- **Extending** a PCR appends to its log. -/
theorem utpmExtend_eq (malloc : Bool) (buf : Mem) (measurement : TpmDigest) {pcrNum : Nat} (h : pcrNum < tpmPcrNum) :
    utpmExtend malloc buf (some measurement) log.bank pcrNum =
      if malloc then
        some (utpmSuccess, PcrLog.bank fun i => if i.val = pcrNum then log i ++ [measurement] else log i)
      else none := by
  have hbank : Function.update log.bank ⟨pcrNum, h⟩ (extendDigest (replay (log ⟨pcrNum, h⟩)) measurement) =
      PcrLog.bank fun i => if i.val = pcrNum then log i ++ [measurement] else log i := by
    funext i
    by_cases hi : i = ⟨pcrNum, h⟩
    · subst hi
      rw [Function.update_self, PcrLog.bank, if_pos rfl, replay_append]
    · have hval : i.val ≠ pcrNum := fun heq => hi (Fin.ext heq)
      rw [Function.update_of_ne hi, PcrLog.bank, PcrLog.bank, if_neg hval]
  rw [utpmExtend, dif_pos h]
  simp only [storedDigest_eq]
  cases malloc
  · rfl
  · exact congrArg (fun bank => some (utpmSuccess, bank)) hbank

/-- **A request** does to the bank what it does to the log. -/
theorem Request.serve_eq (r : Request) :
    r.serve log.bank = if r.aborts then none else some (r.answer log, (r.record log).bank) := by
  cases r with
  | init => rfl
  | pcrread pcrValue pcrNum =>
    cases pcrValue with
    | none => rfl
    | some pcrValue =>
      by_cases h : pcrNum < tpmPcrNum
      · simp [serve, utpmPcrread, aborts, answer, record, h, PcrLog.bank]
      · simp [serve, utpmPcrread, aborts, answer, record, h]
  | extend malloc buf measurement pcrNum =>
    cases measurement with
    | none => rfl
    | some measurement =>
      by_cases h : pcrNum < tpmPcrNum
      · rw [serve, utpmExtend_eq malloc buf measurement h]
        cases malloc <;> simp [aborts, answer, record, h]
      · -- out of range: no PCR has that number
        have hlog : (fun i : Fin tpmPcrNum => if i.val = pcrNum then log i ++ [measurement] else log i) = log := by
          funext i
          have := i.isLt
          exact if_neg (by omega)
        simp [serve, utpmExtend, aborts, answer, record, h, hlog]

/-- The requests on a bank and on its log. -/
theorem serveAll_bank (rs : List Request) :
    serveAll log.bank rs =
      if rs.any Request.aborts then none
      else some (answers log rs, PcrLog.bank (rs.foldl Request.record log)) := by
  induction rs generalizing log with
  | nil => rfl
  | cons r rs ih =>
    rw [serveAll, r.serve_eq, List.any_cons]
    cases r.aborts
    · simp only [Bool.false_eq_true, if_false, Option.bind_some, ih, Bool.false_or, answers, List.foldl_cons]
      cases rs.any Request.aborts <;> rfl
    · rfl

/-- **The bank from its initialisation on**: it stops only for want of memory; otherwise every answer and every PCR
is what the measurements replay to. -/
theorem serveAll_eq (rs : List Request) :
    serveAll utpmInitInstance rs =
      if rs.any Request.aborts then none
      else some (answers (fun _ => []) rs, PcrLog.bank (rs.foldl Request.record fun _ => [])) :=
  @serveAll_bank (fun _ => []) rs

end Xmhf.Utpm
