import Mathlib.Data.ENat.Lattice
import Schematron.Network.Download

/-!
# The requests of a download

What comes of a request settles a download or leaves it open (`Exchange.outcome_eq`). A download goes
on while it is open and retries are left, so what it answers is what the last request leads to
(`download_run`), and the last request is the first one that settles it, or the last one that is
allowed.
-/
namespace Schematron.Network

/-- A body is taken exactly if it is not too long, in whatever pieces it arrives. -/
theorem gather_eq_some {limit : Nat} {data out : Bytes} {chunks : List Bytes}
    (hdata : data.length ≤ limit) : gather limit data chunks = some out ↔
      out = data ++ chunks.flatten ∧ out.length ≤ limit := by
  induction chunks generalizing data with
  | nil =>
    simp only [gather, Option.some.injEq, List.flatten_nil, List.append_nil]
    constructor
    · rintro rfl
      exact ⟨rfl, hdata⟩
    · rintro ⟨rfl, -⟩
      rfl
  | cons c cs ih =>
    rw [gather, List.flatten_cons, ← List.append_assoc]
    split
    · rename_i hlong
      constructor
      · exact nofun
      · rintro ⟨rfl, hout⟩
        rw [List.length_append] at hout
        omega
    · rename_i hshort
      exact ih (Nat.le_of_not_lt hshort)

/-- A body is there as the pieces have it, unless it is announced or found to be too long, or ends
before it is complete. -/
theorem Response.body_eq_ok {r : Response} {limit : Nat} {url : String} {d : Download} :
    r.body limit url = .ok d ↔ (∀ n ∈ r.announced, n ≤ limit) ∧ r.broken = none ∧
      r.chunks.flatten.length ≤ limit ∧ d = ⟨r.chunks.flatten, r.etag, r.lastModified⟩ := by
  have hgather (out : Bytes) : gather limit [] r.chunks = some out ↔
      out = r.chunks.flatten ∧ out.length ≤ limit := gather_eq_some limit.zero_le
  have hannounced : r.announced.any (limit < ·) = false ↔ ∀ n ∈ r.announced, n ≤ limit := by
    cases r.announced <;> simp
  cases hany : r.announced.any (limit < ·) with
  | true =>
    rw [← hannounced, hany]
    simp [body, hany]
  | false =>
    rw [← hannounced, hany]
    cases hg : gather limit [] r.chunks with
    | none =>
      have hlong : ¬ r.chunks.flatten.length ≤ limit := by
        intro hle
        rw [(hgather _).2 ⟨rfl, hle⟩] at hg
        cases hg
      simp [body, hany, hg, hlong, -List.length_flatten]
    | some out =>
      obtain ⟨rfl, hle⟩ := (hgather out).1 hg
      cases hb : r.broken <;> simp [body, hany, hg, hb, hle, eq_comm, -List.length_flatten]

namespace Exchange

/-- Whether another request can not lead to a better result: the server has answered, and not with an
error of its own, or there is no answer for another reason than the time, the connection or the way
of the request to the server. -/
def isConclusive : Exchange → Bool
  | .answered r => ! (500 ≤ r.status && r.status ≤ 599)
  | .failed (.timeout _ _) => false
  | .failed (.http e) => ! (e.timedOut || e.unconnected || e.unsent)
  | .failed _ => true

/-- What a request leads to if no other one follows: a body if the server says that there is one. -/
def result (x : Exchange) (limit : Nat) (url : String) : Except EngineError Download :=
  match x with
  | .answered r =>
    if 200 ≤ r.status ∧ r.status ≤ 299 then r.body limit url
    else .error (.httpStatus url r.status (Status.phrase r.status))
  | .failed e => .error e

theorem outcome_eq (x : Exchange) (limit : Nat) (url : String) :
    x.outcome limit url = (x.result limit url, ! x.isConclusive) := by
  cases x with
  | failed e => cases e <;> simp [outcome, result, isConclusive, EngineError.isTransient]
  | answered r =>
    have hsuccess : Status.isSuccess r.status = true ↔ 200 ≤ r.status ∧ r.status ≤ 299 := by
      rw [Status.isSuccess, beq_iff_eq]
      omega
    have hserver : Status.isServerError r.status = (500 ≤ r.status && r.status ≤ 599) := by
      rw [Bool.eq_iff_iff, Status.isServerError, beq_iff_eq, Bool.and_eq_true, decide_eq_true_eq,
        decide_eq_true_eq]
      omega
    by_cases h : 200 ≤ r.status ∧ r.status ≤ 299
    · have hnot : ¬ 500 ≤ r.status := by omega
      simp [outcome, result, isConclusive, hsuccess.2 h, h, hnot]
    · have hno : ¬ Status.isSuccess r.status = true := fun hs => h (hsuccess.1 hs)
      simp only [outcome, result, isConclusive, if_neg h, if_neg hno, hserver, Bool.not_not]

theorem exists_of_result_eq_ok {x : Exchange} {limit : Nat} {url : String} {d : Download}
    (h : x.result limit url = .ok d) : ∃ r, x = .answered r ∧ r.body limit url = .ok d := by
  cases x with
  | failed e => cases h
  | answered r =>
    unfold result at h
    dsimp only at h
    split at h
    · exact ⟨r, rfl, h⟩
    · cases h

end Exchange

variable (n : Network) (limit : Nat) (url : String)

/-- The requests of a download: the ones before the last settle nothing, and the last one does, or no
retry is left after it. -/
theorem download_run (retries made : Nat) : ∃ last ≤ retries,
    n.download limit url retries made =
        ((n.exchange (made + last) url).result limit url, made + (last + 1)) ∧
      (∀ k < last, (n.exchange (made + k) url).isConclusive = false) ∧
      (last = retries ∨ (n.exchange (made + last) url).isConclusive = true) := by
  induction retries generalizing made with
  | zero =>
    refine ⟨0, Nat.le_refl 0, ?_, nofun, .inl rfl⟩
    simp only [download, Exchange.outcome_eq, Nat.add_zero, Nat.zero_add]
  | succ retries ih =>
    rw [download, Exchange.outcome_eq]
    cases h : (n.exchange made url).isConclusive with
    | true => exact ⟨0, Nat.zero_le _, rfl, nofun, .inr h⟩
    | false =>
      obtain ⟨last, hle, hrun, hbefore, hend⟩ := ih (made + 1)
      have hshift (k : Nat) : made + 1 + k = made + (k + 1) := by omega
      simp only [hshift] at hrun hbefore hend
      refine ⟨last + 1, Nat.succ_le_succ hle, ?_, fun k hk => ?_, hend.imp (congrArg (· + 1)) id⟩
      · simp only [Bool.not_false, hrun]
      · cases k with
        | zero => exact h
        | succ k => exact hbefore k (Nat.lt_of_succ_lt_succ hk)

/-- The position of the first request that settles a download; infinite if there is none. -/
noncomputable def firstConclusive (made : Nat) : ℕ∞ :=
  ⨅ (k : ℕ) (_ : (n.exchange (made + k) url).isConclusive = true), ((k + 1 : ℕ) : ℕ∞)

variable {n url}

theorem firstConclusive_le {made k : Nat} (h : (n.exchange (made + k) url).isConclusive = true) :
    n.firstConclusive url made ≤ ((k + 1 : ℕ) : ℕ∞) := iInf₂_le k h

theorem le_firstConclusive {made m : Nat}
    (h : ∀ k < m, (n.exchange (made + k) url).isConclusive = false) :
    ((m + 1 : ℕ) : ℕ∞) ≤ n.firstConclusive url made := by
  refine le_iInf₂ fun k hk => ?_
  have hle : m ≤ k := by
    by_contra hlt
    rw [h k (Nat.lt_of_not_le hlt)] at hk
    cases hk
  exact Nat.cast_le.2 (Nat.succ_le_succ hle)

/-- A download makes requests up to the first one that settles it, and at most one more than it has
retries. Its result is what the last request leads to, and a body that it gives has come in pieces
of at most the allowed length together. -/
theorem download_first_conclusive (s : Settings) (n : Network) (url : String) (made : Nat) :
    ∃ last, (s.download n url made).2 = made + (last + 1) ∧
      ((last + 1 : ℕ) : ℕ∞) = min (n.firstConclusive url made) ((s.retries + 1 : ℕ) : ℕ∞) ∧
      (s.download n url made).1 = (n.exchange (made + last) url).result s.maxBody url ∧
      ∀ d, (s.download n url made).1 = .ok d → d.data.length ≤ s.maxBody ∧
        ∃ r, n.exchange (made + last) url = .answered r ∧ d.data = r.chunks.flatten := by
  obtain ⟨last, hle, hrun, hbefore, hend⟩ := n.download_run s.maxBody url s.retries made
  have hcount : ((last + 1 : ℕ) : ℕ∞) ≤ ((s.retries + 1 : ℕ) : ℕ∞) :=
    Nat.cast_le.2 (Nat.succ_le_succ hle)
  refine ⟨last, congrArg Prod.snd hrun, ?_, congrArg Prod.fst hrun, fun d hd => ?_⟩
  · apply le_antisymm (le_min (le_firstConclusive hbefore) hcount)
    rcases hend with rfl | hconclusive
    · exact min_le_right _ _
    · exact (min_le_left _ _).trans (firstConclusive_le hconclusive)
  · have hresult := (congrArg Prod.fst hrun).symm.trans hd
    obtain ⟨r, hr, hbody⟩ := Exchange.exists_of_result_eq_ok hresult
    obtain ⟨-, -, hlength, rfl⟩ := Response.body_eq_ok.1 hbody
    exact ⟨hlength, r, hr, rfl⟩

/-- A network whose server cannot be reached at first, fails then, and at last gives a body in two
pieces. -/
def recovering : Network where
  exchange
    | 0, _ => .failed (.http { details := "connection refused", unconnected := true })
    | 1, _ => .answered { status := 503 }
    | _, _ => .answered { status := 200, chunks := [[60, 97], [47, 62]] }
  size := 0

/-- The third request settles the download, with a body that is as long as it may be. -/
theorem download_first_conclusive_recovering :
    ({ maxBody := 4 } : Settings).download recovering "http://example.com/a.sch" 0 =
        (.ok { data := [60, 97, 47, 62] }, 3) ∧
      ((3 : ℕ) : ℕ∞) =
        min (recovering.firstConclusive "http://example.com/a.sch" 0) ((4 : ℕ) : ℕ∞) ∧
      [60, 97, 47, 62].length ≤ 4 := by
  have hdownload : ({ maxBody := 4 } : Settings).download recovering "http://example.com/a.sch" 0 =
      (.ok { data := [60, 97, 47, 62] }, 3) := rfl
  obtain ⟨last, hcount, hmin, -, hbody⟩ :=
    download_first_conclusive { maxBody := 4 } recovering "http://example.com/a.sch" 0
  rw [hdownload] at hcount hbody
  obtain rfl : last = 2 := by omega
  exact ⟨hdownload, hmin, (hbody _ rfl).1⟩

end Schematron.Network
