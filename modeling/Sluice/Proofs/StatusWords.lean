import Sluice.Proofs.Configure
import Sluice.Proofs.Engine.Calls
import Sluice.Proofs.Step

namespace Sluice

namespace Word

theorem ofError_ofError (number : Word) : ofError (ofError number) = number := by
  unfold ofError
  rw [UInt64.zero_sub, UInt64.zero_sub, UInt64.neg_neg]

theorem toNat_ofError {number : Word} (positive : 1 ≤ number) :
    (ofError number).toNat + number.toNat = UInt64.size := by
  have lt := number.toNat_lt
  have size : UInt64.size = 18446744073709551616 := rfl
  have one : (1 : Word).toNat = 1 := rfl
  rw [UInt64.le_iff_toNat_le, one] at positive
  unfold ofError
  rw [UInt64.toNat_sub, UInt64.toNat_zero]
  omega

theorem isError_iff_lt (code : Word) :
    code.isError = true ↔ UInt64.size - reservedErrors.toNat < code.toNat := by
  unfold isError
  rw [decide_eq_true_iff, UInt64.lt_iff_toNat_lt]
  rfl

theorem ne_zero_of_isError {code : Word} (error : code.isError = true) : code ≠ 0 := by
  rintro rfl
  cases error

/-- Counted down from the top, errors are the numbers below the reserved limit. -/
theorem isError_iff (code : Word) :
    code.isError = true ↔
      ∃ number, 1 ≤ number ∧ number < reservedErrors ∧ code = ofError number := by
  have size : UInt64.size = 18446744073709551616 := rfl
  have limit : reservedErrors.toNat = 120 := rfl
  constructor
  · intro error
    have high := (isError_iff_lt code).mp error
    have positive : 1 ≤ ofError code := by
      rw [UInt64.le_iff_toNat_le]
      refine Nat.pos_of_ne_zero fun zero => ne_zero_of_isError error ?_
      have none : ofError code = 0 := UInt64.toNat_inj.mp zero
      rw [← ofError_ofError code, none]
      rfl
    have sum := toNat_ofError positive
    rw [ofError_ofError] at sum
    refine ⟨ofError code, positive, ?_, (ofError_ofError code).symm⟩
    rw [UInt64.lt_iff_toNat_lt]
    omega
  · rintro ⟨number, positive, below, rfl⟩
    have sum := toNat_ofError positive
    rw [UInt64.lt_iff_toNat_lt] at below
    rw [isError_iff_lt]
    omega

end Word

theorem checkParameter_eq (id value : Int32) (code : Word) :
    checkParameter id value code =
      if code.isError then .error (.invalidParameter id value code (describe code))
      else .ok () := by
  cases h : code.isError with
  | true => exact Compressor.checkParameter_of_isError h
  | false => exact Compressor.checkParameter_of_hint h

namespace Status

theorem toExcept_ofCode (code : Word) :
    (ofCode code).toExcept =
      if code.isError then .error (.codec code (describe code)) else .ok code := by
  unfold ofCode
  split <;> rfl

theorem errorName_ofCode (code : Word) : (ofCode code).errorName = Sluice.errorName code := by
  cases h : code.isError with
  | true =>
    have typed : ofCode code = .error code := if_pos h
    rw [typed]
    rfl
  | false =>
    have typed : ofCode code = .hint code := if_neg (by simp [h])
    rw [typed, Sluice.errorName, h]
    rfl

/-- The typed view and the word say the same. -/
structure Agrees (s : Status) : Prop where
  isError : s.isError = s.code.isError
  name : s.errorName.isSome = s.code.isError
  result : s.toExcept.isOk = !s.code.isError
  isDone : s.isDone = true ↔ s.code = 0

theorem agrees_ofCode (code : Word) : (ofCode code).Agrees := by
  cases h : code.isError with
  | true =>
    have typed : ofCode code = .error code := if_pos h
    rw [typed]
    refine ⟨h.symm, ?_, by change false = !code.isError; rw [h]; rfl, ?_⟩
    · change (Sluice.errorName code).isSome = code.isError
      rw [Sluice.errorName, h]
      rfl
    · exact ⟨nofun, fun zero => absurd zero (Word.ne_zero_of_isError h)⟩
  | false =>
    have typed : ofCode code = .hint code := if_neg (by simp [h])
    rw [typed]
    exact ⟨h.symm, h.symm, by change true = !code.isError; rw [h]; rfl, beq_iff_eq⟩

theorem agrees_bufferAccessFailure : bufferAccessFailure.Agrees :=
  ⟨by decide, by decide, by decide, by decide⟩

end Status

section Step

variable {σ : Type}

theorem agrees_stepOver (run : {size : Nat} → InWindow → OutWindow size → Answer σ size) (s : σ)
    (output input : Cursor) : (stepOver run s output input).value.report.status.Agrees := by
  by_cases resolve : ∃ inRegion outRegion, input.Resolves inRegion ∧ output.Resolves outRegion
  · obtain ⟨inRegion, outRegion, hi, ho⟩ := resolve
    rw [stepOver_of_resolves hi ho]
    exact Status.agrees_ofCode _
  · rw [stepOver_of_unresolved resolve]
    exact Status.agrees_bufferAccessFailure

theorem StepRequest.agrees (r : StepRequest σ) (s : σ) :
    (r.serve s).value.report.status.Agrees := by
  rw [r.serve_eq]
  exact agrees_stepOver ..

end Step

namespace Engine

variable {σ τ : Type}

def Reply.status? : Reply → Option Status
  | status answer => answer.toOption
  | stepped answer => answer.toOption.map (·.1.status)
  | _ => none

theorem agrees_drive {α : Type} {t : SessionTable α} {h : Handle} {run : α → Logged (Stepped α)}
    (agrees : ∀ s, (run s).value.report.status.Agrees) :
    ∀ s ∈ (Reply.stepped (t.drive h run).value.1).status?, s.Agrees := by
  unfold SessionTable.drive
  cases hg : t.get? h with
  | none =>
    rw [SessionTable.withSession_none _ hg]
    exact nofun
  | some entry =>
    rw [SessionTable.withSession_some _ hg]
    rintro s ⟨⟩
    exact agrees entry.session

theorem agrees_setParameter (cc : Compressor σ) (e : Engine σ τ) (h : CompressorHandle)
    (id value : Int32) :
    ∀ s ∈ (Reply.status (e.setParameter cc h id value).value.1).status?, s.Agrees := by
  unfold Engine.setParameter
  cases hg : e.compressors.get? h.handle with
  | none =>
    simp only [Logged.value_bind, SessionTable.withSession_none _ hg]
    exact nofun
  | some entry =>
    simp only [Logged.value_bind, SessionTable.withSession_some _ hg]
    rintro s ⟨⟩
    split <;> exact Status.agrees_ofCode _

theorem agrees_serve (cc : Compressor σ) (dc : Decompressor τ) (e : Engine σ τ) (c : Call σ τ) :
    ∀ s ∈ (e.serve cc dc c).value.1.status?, s.Agrees := by
  cases c with
  | setParameter h id value => exact agrees_setParameter cc e h id value
  | compress h output input mode => exact agrees_drive fun s => agrees_stepOver _ s output input
  | compressBounds h output outStart outStop input inStart inStop mode =>
    exact agrees_drive fun s => agrees_stepOver _ s _ _
  | decompress h output input => exact agrees_drive fun s => agrees_stepOver _ s output input
  | decompressBounds h output outStart outStop input inStart inStop =>
    exact agrees_drive fun s => agrees_stepOver _ s _ _
  | _ => exact nofun

end Engine

/-- Errors are the negatives of the numbers from 1 up to the reserved limit, and everything that
classifies a word says the same of it and passes it on as it is. Whatever the codecs, the cursors
and the engine are, the status of a step or of a setting is an error exactly if its word is one, and
done exactly if its word is 0. -/
theorem views_agree {σ τ : Type} (cc : Compressor σ) (dc : Decompressor τ) :
    (∀ code : Word,
      (code.isError = true ↔
        ∃ number, 1 ≤ number ∧ number < Word.reservedErrors ∧ code = Word.ofError number) ∧
      Word.ofError (Word.ofError code) = code ∧
      (Status.ofCode code).code = code ∧
      (Status.ofCode code).isError = code.isError ∧
      (errorName code).isSome = code.isError ∧
      (Status.ofCode code).errorName = errorName code ∧
      ((Status.ofCode code).toExcept =
        if code.isError then .error (.codec code (describe code)) else .ok code) ∧
      ∀ id value : Int32, checkParameter id value code =
        if code.isError then .error (.invalidParameter id value code (describe code)) else .ok ()) ∧
    (∀ (r : StepRequest σ) (s : σ), (r.serve s).value.report.status.Agrees) ∧
    ∀ (e : Engine σ τ) (c : Engine.Call σ τ),
      ∀ s ∈ (e.serve cc dc c).value.1.status?, s.Agrees := by
  refine ⟨fun code => ⟨code.isError_iff, code.ofError_ofError, Status.code_ofCode code, ?_, ?_,
    Status.errorName_ofCode code, Status.toExcept_ofCode code, ?_⟩, ?_, ?_⟩
  · have typed := (Status.agrees_ofCode code).isError
    rwa [Status.code_ofCode] at typed
  · have named := (Status.agrees_ofCode code).name
    rwa [Status.code_ofCode, Status.errorName_ofCode] at named
  · exact fun id value => checkParameter_eq id value code
  · exact StepRequest.agrees
  · exact Engine.agrees_serve cc dc

/-- A session steps over a region that is missing. -/
theorem views_agree_unset :
    let cc := Echo.compressor 8
    let dc := Echo.decompressor 8
    let e := Engine.after cc dc {} [.openCompressor (some ())]
    let c : Engine.Call Unit Unit := .compress ⟨⟨0, 0⟩⟩ .unset (.full ⟨#[1]⟩) .more
    (e.serve cc dc c).value.1.status? = some .bufferAccessFailure ∧
      Status.bufferAccessFailure.isError = true ∧
      Status.bufferAccessFailure.isError = Status.bufferAccessFailure.code.isError := by
  intro cc dc e c
  have failed : (e.serve cc dc c).value.1.status? = some .bufferAccessFailure := rfl
  obtain ⟨-, -, engine⟩ := views_agree cc dc
  exact ⟨failed, rfl, (engine e c _ failed).isError⟩

end Sluice
