import Sluice.Codec.Echo
import Sluice.Proofs.Engine.Calls

namespace Sluice

variable {σ τ : Type}

inductive CompressorRequest
  | setParameter (id value : Int32)
  | compress (output input : Cursor) (mode : EndMode)
  | compressBounds (output : ByteArray) (outStart outStop : Word) (input : ByteArray)
    (inStart inStop : Word) (mode : EndMode)
  | progress

inductive DecompressorRequest
  | decompress (output input : Cursor)
  | decompressBounds (output : ByteArray) (outStart outStop : Word) (input : ByteArray)
    (inStart inStop : Word)
  | progress

/-- A step on a codec state alone. The state's progress is that of its latest step. -/
def Stepped.reply {α : Type} (x : Logged (Stepped α)) : Engine.Reply × Entry α :=
  (.stepped (.ok (x.value.report, x.value.output)), ⟨x.value.state, x.value.report.progress⟩)

def Compressor.serve (codec : Compressor σ) (s : Entry σ) :
    CompressorRequest → Engine.Reply × Entry σ
  | .setParameter id value =>
    let (code, session) := codec.setParameter s.session id value
    (.status (.ok (.ofCode code)), { s with session })
  | .compress output input mode => Stepped.reply (codec.compress s.session output input mode)
  | .compressBounds output outStart outStop input inStart inStop mode =>
    Stepped.reply (codec.compressBounds s.session output outStart outStop input inStart inStop mode)
  | .progress => (.progress (.ok s.progress), s)

def Decompressor.serve (codec : Decompressor τ) (s : Entry τ) :
    DecompressorRequest → Engine.Reply × Entry τ
  | .decompress output input => Stepped.reply (codec.decompress s.session output input)
  | .decompressBounds output outStart outStop input inStart inStop =>
    Stepped.reply (codec.decompressBounds s.session output outStart outStop input inStart inStop)
  | .progress => (.progress (.ok s.progress), s)

/-- Requests answered one after the other. -/
def serveInTurn {α ρ : Type} (serve : Entry α → ρ → Engine.Reply × Entry α) (s : Entry α) :
    List ρ → List Engine.Reply × Entry α
  | [] => ([], s)
  | r :: rs =>
    let (reply, s) := serve s r
    let (replies, s) := serveInTurn serve s rs
    (reply :: replies, s)

namespace Engine

def Call.toCompressor? (h : CompressorHandle) : Call σ τ → Option CompressorRequest
  | .setParameter k id value => if k = h then some (.setParameter id value) else none
  | .compress k output input mode => if k = h then some (.compress output input mode) else none
  | .compressBounds k output outStart outStop input inStart inStop mode =>
    if k = h then some (.compressBounds output outStart outStop input inStart inStop mode) else none
  | .compressorProgress k => if k = h then some .progress else none
  | _ => none

def Call.toDecompressor? (h : DecompressorHandle) : Call σ τ → Option DecompressorRequest
  | .decompress k output input => if k = h then some (.decompress output input) else none
  | .decompressBounds k output outStart outStop input inStart inStop =>
    if k = h then some (.decompressBounds output outStart outStop input inStart inStop) else none
  | .decompressorProgress k => if k = h then some .progress else none
  | _ => none

/-- The replies to those calls that make a request of one kind. -/
def repliesTo {ρ : Type} (request? : Call σ τ → Option ρ) (calls : List (Call σ τ))
    (replies : List Reply) : List Reply :=
  (calls.zip replies).filterMap fun (c, reply) => (request? c).map fun _ => reply

variable {cc : Compressor σ} {dc : Decompressor τ} {e : Engine σ τ} {c : Call σ τ}

theorem setParameter_some (he : e.compressors.Consistent) {h : CompressorHandle} {s : Entry σ}
    (hg : e.compressors.get? h.handle = some s) (id value : Int32) :
    (e.setParameter cc h id value).value.1 =
        .ok (.ofCode (cc.setParameter s.session id value).1) ∧
      (e.setParameter cc h id value).value.2.compressors.get? h.handle =
        some { s with session := (cc.setParameter s.session id value).2 } := by
  let run : Entry σ → Logged (Status × Entry σ) := fun entry => do
    let (code, session) := cc.setParameter entry.session id value
    let status := Status.ofCode code
    if status.isError then Logged.note (.refused h.handle id value status)
    return (status, { entry with session })
  have hrun : (run s).value = (.ofCode (cc.setParameter s.session id value).1,
      { s with session := (cc.setParameter s.session id value).2 }) := by
    simp only [run]
    split <;> rfl
  have found := SessionTable.get?_withSession he run hg
  have answered := congrArg Prod.fst (SessionTable.withSession_some run hg)
  rw [hrun] at found answered
  exact ⟨answered, found⟩

theorem serve_compressor (he : e.Consistent) {h : CompressorHandle} {s : Entry σ}
    (hg : e.compressors.get? h.handle = some s) {r : CompressorRequest}
    (hr : c.toCompressor? h = some r) :
    (e.serve cc dc c).value.1 = (cc.serve s r).1 ∧
      (e.next cc dc c).compressors.get? h.handle = some (cc.serve s r).2 := by
  cases c with
  | setParameter k id value =>
    obtain ⟨rfl, rfl⟩ : k = h ∧ CompressorRequest.setParameter id value = r := by
      simpa [Call.toCompressor?] using hr
    obtain ⟨answered, found⟩ := setParameter_some he.compressors hg id value
    exact ⟨congrArg Reply.status answered, found⟩
  | compress k output input mode =>
    obtain ⟨rfl, rfl⟩ : k = h ∧ CompressorRequest.compress output input mode = r := by
      simpa [Call.toCompressor?] using hr
    obtain ⟨answered, found⟩ := SessionTable.drive_some he.compressors
      (cc.compress · output input mode) hg
    exact ⟨congrArg Reply.stepped answered, found⟩
  | compressBounds k output outStart outStop input inStart inStop mode =>
    obtain ⟨rfl, rfl⟩ : k = h ∧ CompressorRequest.compressBounds output outStart outStop input
        inStart inStop mode = r := by simpa [Call.toCompressor?] using hr
    obtain ⟨answered, found⟩ := SessionTable.drive_some he.compressors
      (cc.compressBounds · output outStart outStop input inStart inStop mode) hg
    exact ⟨congrArg Reply.stepped answered, found⟩
  | compressorProgress k =>
    obtain ⟨rfl, rfl⟩ : k = h ∧ CompressorRequest.progress = r := by
      simpa [Call.toCompressor?] using hr
    refine ⟨congrArg Reply.progress ?_, hg⟩
    simp only [compressorProgress, SessionTable.progress, hg]
  | _ => cases hr

theorem serve_decompressor (he : e.Consistent) {h : DecompressorHandle} {s : Entry τ}
    (hg : e.decompressors.get? h.handle = some s) {r : DecompressorRequest}
    (hr : c.toDecompressor? h = some r) :
    (e.serve cc dc c).value.1 = (dc.serve s r).1 ∧
      (e.next cc dc c).decompressors.get? h.handle = some (dc.serve s r).2 := by
  cases c with
  | decompress k output input =>
    obtain ⟨rfl, rfl⟩ : k = h ∧ DecompressorRequest.decompress output input = r := by
      simpa [Call.toDecompressor?] using hr
    obtain ⟨answered, found⟩ := SessionTable.drive_some he.decompressors
      (dc.decompress · output input) hg
    exact ⟨congrArg Reply.stepped answered, found⟩
  | decompressBounds k output outStart outStop input inStart inStop =>
    obtain ⟨rfl, rfl⟩ : k = h ∧ DecompressorRequest.decompressBounds output outStart outStop
        input inStart inStop = r := by simpa [Call.toDecompressor?] using hr
    obtain ⟨answered, found⟩ := SessionTable.drive_some he.decompressors
      (dc.decompressBounds · output outStart outStop input inStart inStop) hg
    exact ⟨congrArg Reply.stepped answered, found⟩
  | decompressorProgress k =>
    obtain ⟨rfl, rfl⟩ : k = h ∧ DecompressorRequest.progress = r := by
      simpa [Call.toDecompressor?] using hr
    refine ⟨congrArg Reply.progress ?_, hg⟩
    simp only [decompressorProgress, SessionTable.progress, hg]
  | _ => cases hr

theorem compressor?_ne {h : CompressorHandle} (hr : c.toCompressor? h = none)
    (hc : c ≠ .closeCompressor h) : c.compressor?.map (·.handle) ≠ some h.handle := by
  intro hn
  obtain ⟨⟨k⟩, hk, rfl⟩ := Option.map_eq_some_iff.mp hn
  cases c <;> simp_all [Call.compressor?, Call.toCompressor?]

theorem decompressor?_ne {h : DecompressorHandle} (hr : c.toDecompressor? h = none)
    (hc : c ≠ .closeDecompressor h) : c.decompressor?.map (·.handle) ≠ some h.handle := by
  intro hn
  obtain ⟨⟨k⟩, hk, rfl⟩ := Option.map_eq_some_iff.mp hn
  cases c <;> simp_all [Call.decompressor?, Call.toDecompressor?]

section Alone

variable {α ρ : Type} {table : Engine σ τ → SessionTable α} {h : Handle}
  {request? : Call σ τ → Option ρ} {serve : Entry α → ρ → Reply × Entry α}
  {closing : Call σ τ}

/-- A session is served alone through a whole run if each of its requests is answered as on its
entry alone and no other call, its closing aside, reaches it. -/
theorem serveAll_alone
    (own : ∀ {e : Engine σ τ} {c s r}, e.Consistent → (table e).get? h = some s →
      request? c = some r → (e.serve cc dc c).value.1 = (serve s r).1 ∧
        (table (e.next cc dc c)).get? h = some (serve s r).2)
    (other : ∀ {e : Engine σ τ} {c s}, e.Consistent → (table e).get? h = some s →
      request? c = none → c ≠ closing → (table (e.next cc dc c)).get? h = some s)
    (he : e.Consistent) {s : Entry α} (hg : (table e).get? h = some s) {cs : List (Call σ τ)}
    (fits : (e.after cc dc cs).Fits) (hc : ∀ c ∈ cs, c ≠ closing) :
    let alone := serveInTurn serve s (cs.filterMap request?)
    repliesTo request? cs (e.serveAll cc dc cs).value.1 = alone.1 ∧
      (table (e.after cc dc cs)).get? h = some alone.2 := by
  induction cs generalizing e s with
  | nil => exact ⟨rfl, hg⟩
  | cons c cs ih =>
    have first := Fits.of_after (e := e.next cc dc c) fits
    have others : ∀ c ∈ cs, c ≠ closing := fun c hm => hc c (List.mem_cons_of_mem _ hm)
    cases hr : request? c with
    | some r =>
      obtain ⟨answered, found⟩ := own he hg hr
      obtain ⟨replies, left⟩ := ih (he.next first) found fits others
      simp only [List.filterMap_cons, hr, serveInTurn, ← answered, ← replies]
      exact ⟨by simp [repliesTo, serveAll, hr], left⟩
    | none =>
      have kept := other he hg hr (hc c List.mem_cons_self)
      obtain ⟨replies, left⟩ := ih (he.next first) kept fits others
      simp only [List.filterMap_cons, hr, ← replies]
      exact ⟨by simp [repliesTo, serveAll, hr], left⟩

end Alone

theorem serveAll_compressor (he : e.Consistent) {h : CompressorHandle} {s : Entry σ}
    (hg : e.compressors.get? h.handle = some s) {cs : List (Call σ τ)}
    (fits : (e.after cc dc cs).Fits) (hc : ∀ c ∈ cs, c ≠ .closeCompressor h) :
    let alone := serveInTurn cc.serve s (cs.filterMap (·.toCompressor? h))
    repliesTo (·.toCompressor? h) cs (e.serveAll cc dc cs).value.1 = alone.1 ∧
      (e.after cc dc cs).compressors.get? h.handle = some alone.2 :=
  serveAll_alone (fun he hg hr => serve_compressor he hg hr)
    (fun he hg hr hc =>
      (moved_compressors _).get?_of_ne he.compressors hg (compressor?_ne hr hc))
    he hg fits hc

theorem serveAll_decompressor (he : e.Consistent) {h : DecompressorHandle} {s : Entry τ}
    (hg : e.decompressors.get? h.handle = some s) {cs : List (Call σ τ)}
    (fits : (e.after cc dc cs).Fits) (hc : ∀ c ∈ cs, c ≠ .closeDecompressor h) :
    let alone := serveInTurn dc.serve s (cs.filterMap (·.toDecompressor? h))
    repliesTo (·.toDecompressor? h) cs (e.serveAll cc dc cs).value.1 = alone.1 ∧
      (e.after cc dc cs).decompressors.get? h.handle = some alone.2 :=
  serveAll_alone (fun he hg hr => serve_decompressor he hg hr)
    (fun he hg hr hc =>
      (moved_decompressors _).get?_of_ne he.decompressors hg (decompressor?_ne hr hc))
    he hg fits hc

theorem opened_compressor (he : e.Consistent) {s : σ} {h : CompressorHandle}
    (fits : (e.next cc dc (.openCompressor (some s))).Fits)
    (opened : (e.serve cc dc (.openCompressor (some s))).value.1 = .compressor (some h)) :
    (e.next cc dc (.openCompressor (some s))).compressors.get? h.handle = some ⟨s, .zero⟩ := by
  have found := (SessionTable.inserted he.compressors fits.1).found
  change Reply.compressor (some ⟨(e.compressors.insert s).1⟩) = _ at opened
  cases opened
  exact found

theorem opened_decompressor (he : e.Consistent) {s : τ} {h : DecompressorHandle}
    (fits : (e.next cc dc (.openDecompressor (some s))).Fits)
    (opened : (e.serve cc dc (.openDecompressor (some s))).value.1 = .decompressor (some h)) :
    (e.next cc dc (.openDecompressor (some s))).decompressors.get? h.handle = some ⟨s, .zero⟩ := by
  have found := (SessionTable.inserted he.decompressors fits.2).found
  change Reply.decompressor (some ⟨(e.decompressors.insert s).1⟩) = _ at opened
  cases opened
  exact found

theorem close_compressor (he : e.Consistent) {h : CompressorHandle} {s : Entry σ}
    (hg : e.compressors.get? h.handle = some s) :
    (e.serve cc dc (.closeCompressor h)).value.1 = .closed (.ok ()) := by
  obtain ⟨t', hc, _⟩ := SessionTable.closeSession_some (t := e.compressors) he.compressors hg
  exact congrArg Reply.closed (congrArg Prod.fst hc)

theorem close_decompressor (he : e.Consistent) {h : DecompressorHandle} {s : Entry τ}
    (hg : e.decompressors.get? h.handle = some s) :
    (e.serve cc dc (.closeDecompressor h)).value.1 = .closed (.ok ()) := by
  obtain ⟨t', hc, _⟩ := SessionTable.closeSession_some (t := e.decompressors) he.decompressors hg
  exact congrArg Reply.closed (congrArg Prod.fst hc)

/-- In every run from the new engine that needs no more slots than there are indices, the replies
through a handle, from the call that handed it out to its close, are those of its own requests on
one codec state that starts where its creation left it, and the close is confirmed. The sessions
open at the end are those handed out less those whose close was confirmed. -/
theorem sessions_isolated (cc : Compressor σ) (dc : Decompressor τ) (calls : List (Call σ τ))
    (fits : (after cc dc {} calls).Fits) :
    (∀ before s h during rest, calls = before ++ .openCompressor (some s) :: (during ++ rest) →
      let e := (after cc dc {} before).next cc dc (.openCompressor (some s))
      ((after cc dc {} before).serve cc dc (.openCompressor (some s))).value.1 =
        .compressor (some h) → (∀ c ∈ during, c ≠ .closeCompressor h) →
      repliesTo (·.toCompressor? h) during (e.serveAll cc dc during).value.1 =
          (serveInTurn cc.serve ⟨s, .zero⟩ (during.filterMap (·.toCompressor? h))).1 ∧
        ((e.after cc dc during).serve cc dc (.closeCompressor h)).value.1 = .closed (.ok ())) ∧
    (∀ before s h during rest, calls = before ++ .openDecompressor (some s) :: (during ++ rest) →
      let e := (after cc dc {} before).next cc dc (.openDecompressor (some s))
      ((after cc dc {} before).serve cc dc (.openDecompressor (some s))).value.1 =
        .decompressor (some h) → (∀ c ∈ during, c ≠ .closeDecompressor h) →
      repliesTo (·.toDecompressor? h) during (e.serveAll cc dc during).value.1 =
          (serveInTurn dc.serve ⟨s, .zero⟩ (during.filterMap (·.toDecompressor? h))).1 ∧
        ((e.after cc dc during).serve cc dc (.closeDecompressor h)).value.1 = .closed (.ok ())) ∧
    (after cc dc {} calls).openSessions +
        (serveAll cc dc {} calls).value.1.countP Reply.closes =
      (serveAll cc dc {} calls).value.1.countP Reply.opens := by
  -- A run that fits at its end fits before and after each of its calls.
  have moments : ∀ before c during rest, calls = before ++ c :: (during ++ rest) →
      let e := after cc dc {} before
      e.Consistent ∧ (e.next cc dc c).Consistent ∧ (e.next cc dc c).Fits ∧
        ((e.next cc dc c).after cc dc during).Consistent ∧
        ((e.next cc dc c).after cc dc during).Fits := by
    rintro before c during rest rfl
    rw [after_append] at fits
    change (((after cc dc {} before).next cc dc c).after cc dc (during ++ rest)).Fits at fits
    rw [after_append] at fits
    have last := Fits.of_after fits
    have first := Fits.of_after last
    have start := Consistent.after (Consistent.empty (σ := σ) (τ := τ)) (first.of_next)
    exact ⟨start, start.next first, first, (start.next first).after last, last⟩
  refine ⟨?_, ?_, ?_⟩
  · intro before s h during rest hcalls e opened hc
    obtain ⟨start, next, first, last, lastFits⟩ := moments _ _ _ _ hcalls
    obtain ⟨replies, found⟩ := serveAll_compressor next (opened_compressor start first opened)
      lastFits hc
    exact ⟨replies, close_compressor last found⟩
  · intro before s h during rest hcalls e opened hc
    obtain ⟨start, next, first, last, lastFits⟩ := moments _ _ _ _ hcalls
    obtain ⟨replies, found⟩ := serveAll_decompressor next (opened_decompressor start first opened)
      lastFits hc
    exact ⟨replies, close_decompressor last found⟩
  · have count := openSessions_after Consistent.empty fits
    simpa [openSessions, SessionTable.size] using count

/-- Sessions of both directions in turn; the first compressor is closed, its slot is used again,
and its handle is presented once more. -/
def interleaved : List (Call Unit Unit) :=
  [.openCompressor (some ()), .openDecompressor (some ()), .openCompressor none,
    .compress ⟨⟨0, 0⟩⟩ .unset .unset .more, .closeCompressor ⟨⟨0, 0⟩⟩]

def meanwhile : List (Call Unit Unit) :=
  [.setParameter ⟨⟨0, 1⟩⟩ 100 3, .compress ⟨⟨0, 0⟩⟩ .unset .unset .finish,
    .decompress ⟨⟨0, 0⟩⟩ (.full ⟨#[0, 0]⟩) (.full ⟨#[1, 2, 3]⟩),
    .compress ⟨⟨0, 1⟩⟩ (.full ⟨#[0, 0]⟩) (.full ⟨#[1, 2, 3]⟩) .more,
    .compressorProgress ⟨⟨0, 1⟩⟩]

theorem sessions_isolated_meanwhile :
    let cc := Echo.compressor 8
    let dc := Echo.decompressor 8
    let calls := interleaved ++ .openCompressor (some ()) :: (meanwhile ++ [])
    let e := (after cc dc {} interleaved).next cc dc (.openCompressor (some ()))
    (after cc dc {} calls).Fits ∧
      repliesTo (·.toCompressor? ⟨⟨0, 1⟩⟩) meanwhile (e.serveAll cc dc meanwhile).value.1 =
        (serveInTurn cc.serve ⟨(), .zero⟩
          (meanwhile.filterMap (·.toCompressor? ⟨⟨0, 1⟩⟩))).1 ∧
      (after cc dc {} calls).openSessions = 2 := by
  intro cc dc calls e
  have fits : (after cc dc {} calls).Fits := ⟨by decide, by decide⟩
  obtain ⟨compressors, -, count⟩ := sessions_isolated cc dc calls fits
  have others : ∀ c ∈ meanwhile, c ≠ .closeCompressor ⟨⟨0, 1⟩⟩ := by simp [meanwhile]
  refine ⟨fits, (compressors interleaved () _ meanwhile [] rfl rfl others).1, ?_⟩
  have opens : (serveAll cc dc {} calls).value.1.countP Reply.opens = 3 := by rfl
  have closes : (serveAll cc dc {} calls).value.1.countP Reply.closes = 1 := by rfl
  omega

end Engine

end Sluice
