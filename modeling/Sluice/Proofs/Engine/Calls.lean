import Sluice.Proofs.Session.Operations

namespace Sluice.Engine

variable {σ τ : Type}

/-- One call on an engine. A creation carries the context its codec handed out, if any. -/
inductive Call (σ τ : Type)
  | openCompressor (fresh : Option σ)
  | openDecompressor (fresh : Option τ)
  | setParameter (h : CompressorHandle) (id value : Int32)
  | compress (h : CompressorHandle) (output input : Cursor) (mode : EndMode)
  | compressBounds (h : CompressorHandle) (output : ByteArray) (outStart outStop : Word)
    (input : ByteArray) (inStart inStop : Word) (mode : EndMode)
  | decompress (h : DecompressorHandle) (output input : Cursor)
  | decompressBounds (h : DecompressorHandle) (output : ByteArray) (outStart outStop : Word)
    (input : ByteArray) (inStart inStop : Word)
  | compressorProgress (h : CompressorHandle)
  | decompressorProgress (h : DecompressorHandle)
  | closeCompressor (h : CompressorHandle)
  | closeDecompressor (h : DecompressorHandle)

inductive Reply
  | compressor (h : Option CompressorHandle)
  | decompressor (h : Option DecompressorHandle)
  | status (answer : Except Fault Status)
  | stepped (answer : Except Fault (Report × Cursor))
  | progress (answer : Except Fault Progress)
  | closed (answer : Except Fault Unit)

def Reply.opens : Reply → Bool
  | compressor h => h.isSome
  | decompressor h => h.isSome
  | _ => false

def Reply.closes : Reply → Bool
  | closed answer => answer.isOk
  | _ => false

def serve (cc : Compressor σ) (dc : Decompressor τ) (e : Engine σ τ) :
    Call σ τ → Logged (Reply × Engine σ τ)
  | .openCompressor fresh => (e.openCompressor fresh).map fun (h, e) => (.compressor h, e)
  | .openDecompressor fresh => (e.openDecompressor fresh).map fun (h, e) => (.decompressor h, e)
  | .setParameter h id value =>
    (e.setParameter cc h id value).map fun (a, e) => (.status a, e)
  | .compress h output input mode =>
    (e.compress cc h output input mode).map fun (a, e) => (.stepped a, e)
  | .compressBounds h output outStart outStop input inStart inStop mode =>
    (e.compressBounds cc h output outStart outStop input inStart inStop mode).map
      fun (a, e) => (.stepped a, e)
  | .decompress h output input =>
    (e.decompress dc h output input).map fun (a, e) => (.stepped a, e)
  | .decompressBounds h output outStart outStop input inStart inStop =>
    (e.decompressBounds dc h output outStart outStop input inStart inStop).map
      fun (a, e) => (.stepped a, e)
  | .compressorProgress h => pure (.progress (e.compressorProgress h), e)
  | .decompressorProgress h => pure (.progress (e.decompressorProgress h), e)
  | .closeCompressor h => (e.closeCompressor h).map fun (a, e) => (.closed a, e)
  | .closeDecompressor h => (e.closeDecompressor h).map fun (a, e) => (.closed a, e)

def serveAll (cc : Compressor σ) (dc : Decompressor τ) (e : Engine σ τ) :
    List (Call σ τ) → Logged (List Reply × Engine σ τ)
  | [] => pure ([], e)
  | c :: cs => do
    let (reply, e) ← e.serve cc dc c
    let (replies, e) ← e.serveAll cc dc cs
    return (reply :: replies, e)

abbrev next (cc : Compressor σ) (dc : Decompressor τ) (e : Engine σ τ) (c : Call σ τ) :
    Engine σ τ := (e.serve cc dc c).value.2

abbrev after (cc : Compressor σ) (dc : Decompressor τ) (e : Engine σ τ) (cs : List (Call σ τ)) :
    Engine σ τ := (e.serveAll cc dc cs).value.2

namespace Call

def compressor? : Call σ τ → Option CompressorHandle
  | setParameter h .. | compress h .. | compressBounds h .. | compressorProgress h
  | closeCompressor h => some h
  | _ => none

def decompressor? : Call σ τ → Option DecompressorHandle
  | decompress h .. | decompressBounds h .. | decompressorProgress h | closeDecompressor h => some h
  | _ => none

end Call

/-- Neither table has more slots than there are indices. -/
def Fits (e : Engine σ τ) : Prop :=
  e.compressors.slots.size ≤ UInt32.size ∧ e.decompressors.slots.size ≤ UInt32.size

structure Consistent (e : Engine σ τ) : Prop where
  compressors : e.compressors.Consistent
  decompressors : e.decompressors.Consistent

theorem Consistent.empty : Consistent ({} : Engine σ τ) := ⟨.empty, .empty⟩

variable {cc : Compressor σ} {dc : Decompressor τ} {e : Engine σ τ}

theorem after_append (before rest : List (Call σ τ)) :
    e.after cc dc (before ++ rest) = (e.after cc dc before).after cc dc rest := by
  induction before generalizing e with
  | nil => rfl
  | cons c cs ih => exact ih

theorem moved_compressors (c : Call σ τ) :
    e.compressors.Moved .compress (c.compressor?.map (·.handle)) (e.next cc dc c).compressors := by
  cases c with
  | openCompressor fresh =>
    cases fresh with
    | none => exact .idle _
    | some session => exact .insert session
  | setParameter h id value => exact .use h.handle _
  | compress h output input mode => exact .use h.handle _
  | compressBounds h output outStart outStop input inStart inStop mode => exact .use h.handle _
  | closeCompressor h => exact .close h.handle
  | _ => exact .idle _

theorem moved_decompressors (c : Call σ τ) :
    e.decompressors.Moved .decompress (c.decompressor?.map (·.handle))
      (e.next cc dc c).decompressors := by
  cases c with
  | openDecompressor fresh =>
    cases fresh with
    | none => exact .idle _
    | some session => exact .insert session
  | decompress h output input => exact .use h.handle _
  | decompressBounds h output outStart outStop input inStart inStop => exact .use h.handle _
  | closeDecompressor h => exact .close h.handle
  | _ => exact .idle _

theorem Fits.of_next {c : Call σ τ} (fits : (e.next cc dc c).Fits) : e.Fits :=
  ⟨Nat.le_trans (moved_compressors c).slots_size_le fits.1,
    Nat.le_trans (moved_decompressors c).slots_size_le fits.2⟩

/-- A run that fits to its end fits at every moment before. -/
theorem Fits.of_after {cs : List (Call σ τ)} (fits : (e.after cc dc cs).Fits) : e.Fits := by
  induction cs generalizing e with
  | nil => exact fits
  | cons c cs ih => exact Fits.of_next (ih (e := e.next cc dc c) fits)

theorem Consistent.next (he : e.Consistent) {c : Call σ τ} (fits : (e.next cc dc c).Fits) :
    (e.next cc dc c).Consistent :=
  ⟨(moved_compressors c).consistent he.compressors fits.1,
    (moved_decompressors c).consistent he.decompressors fits.2⟩

theorem Consistent.after (he : e.Consistent) {cs : List (Call σ τ)}
    (fits : (e.after cc dc cs).Fits) : (e.after cc dc cs).Consistent := by
  induction cs generalizing e with
  | nil => exact he
  | cons c cs ih => exact ih (he.next (Fits.of_after fits)) fits

theorem openSessions_next (he : e.Consistent) {c : Call σ τ} (fits : (e.next cc dc c).Fits) :
    (e.next cc dc c).openSessions + (e.serve cc dc c).value.1.closes.toNat =
      e.openSessions + (e.serve cc dc c).value.1.opens.toNat := by
  cases c with
  | openCompressor fresh =>
    cases fresh with
    | none => rfl
    | some session =>
      have := (SessionTable.inserted he.compressors fits.1).size_eq he.compressors
      change _ + 0 = e.openSessions + 1
      change (e.compressors.insert session).2.size + e.decompressors.size + 0 = _
      unfold openSessions
      omega
  | openDecompressor fresh =>
    cases fresh with
    | none => rfl
    | some session =>
      have := (SessionTable.inserted he.decompressors fits.2).size_eq he.decompressors
      change _ + 0 = e.openSessions + 1
      change e.compressors.size + (e.decompressors.insert session).2.size + 0 = _
      unfold openSessions
      omega
  | closeCompressor h =>
    change (e.compressors.closeSession .compress h.handle).value.2.size + e.decompressors.size +
      (e.compressors.closeSession .compress h.handle).value.1.isOk.toNat = e.openSessions + 0
    cases hg : e.compressors.get? h.handle with
    | none => rw [SessionTable.closeSession_none hg]; rfl
    | some entry =>
      obtain ⟨t', hc, hr⟩ := SessionTable.closeSession_some he.compressors hg
      rw [hc]
      have := hr.size_eq
      change t'.size + e.decompressors.size + 1 = _
      unfold openSessions
      omega
  | closeDecompressor h =>
    change e.compressors.size + (e.decompressors.closeSession .decompress h.handle).value.2.size +
      (e.decompressors.closeSession .decompress h.handle).value.1.isOk.toNat = e.openSessions + 0
    cases hg : e.decompressors.get? h.handle with
    | none => rw [SessionTable.closeSession_none hg]; rfl
    | some entry =>
      obtain ⟨t', hc, hr⟩ := SessionTable.closeSession_some he.decompressors hg
      rw [hc]
      have := hr.size_eq
      change e.compressors.size + t'.size + 1 = _
      unfold openSessions
      omega
  | setParameter h id value =>
    exact congrArg (· + e.decompressors.size) (SessionTable.size_withSession _)
  | compress h output input mode =>
    exact congrArg (· + e.decompressors.size) (SessionTable.size_withSession _)
  | compressBounds h output outStart outStop input inStart inStop mode =>
    exact congrArg (· + e.decompressors.size) (SessionTable.size_withSession _)
  | decompress h output input =>
    exact congrArg (e.compressors.size + ·) (SessionTable.size_withSession _)
  | decompressBounds h output outStart outStop input inStart inStop =>
    exact congrArg (e.compressors.size + ·) (SessionTable.size_withSession _)
  | compressorProgress h => rfl
  | decompressorProgress h => rfl

theorem openSessions_after (he : e.Consistent) {cs : List (Call σ τ)}
    (fits : (e.after cc dc cs).Fits) :
    (e.after cc dc cs).openSessions + (e.serveAll cc dc cs).value.1.countP Reply.closes =
      e.openSessions + (e.serveAll cc dc cs).value.1.countP Reply.opens := by
  induction cs generalizing e with
  | nil => rfl
  | cons c cs ih =>
    have first := Fits.of_after (e := e.next cc dc c) fits
    have step := openSessions_next he first
    have rest := ih (he.next first) fits
    change ((e.next cc dc c).after cc dc cs).openSessions +
      ((e.serve cc dc c).value.1 :: ((e.next cc dc c).serveAll cc dc cs).value.1).countP _ =
      _ + ((e.serve cc dc c).value.1 :: ((e.next cc dc c).serveAll cc dc cs).value.1).countP _
    rw [List.countP_cons, List.countP_cons]
    cases hc : (e.serve cc dc c).value.1.closes <;> cases ho : (e.serve cc dc c).value.1.opens <;>
      simp_all <;> omega

end Sluice.Engine
