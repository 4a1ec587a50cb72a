import Sluice.Configure
import Sluice.Proofs.Settings

namespace Sluice

variable {σ : Type}

structure Asked where
  id : Int32
  value : Int32
  code : Word

namespace Compressor

/-- The same codec, keeping a record of the settings that it is asked for. -/
def overheard (codec : Compressor σ) : Compressor (σ × List Asked) where
  setParameter p id value :=
    let (code, s) := codec.setParameter p.1 id value
    (code, (s, p.2 ++ [⟨id, value, code⟩]))
  step p input output mode :=
    let a := codec.step p.1 input output mode
    ⟨a.code, (a.state, p.2), a.inPos, a.output⟩

/-- How a list of settings went: asked for in order, all of them or as far as the first refusal. -/
structure Went (pairs : List (Int32 × Int32)) (asked : List Asked) (result : Except Fault Unit) :
    Prop where
  inOrder : asked.map (fun a => (a.id, a.value)) = pairs.take asked.length
  ok_iff : result = .ok () ↔ ∀ a ∈ asked, a.code.isError = false
  whole : result = .ok () → asked.length = pairs.length
  refused : result ≠ .ok () → ∃ earlier last, asked = earlier ++ [last] ∧
    (∀ a ∈ earlier, a.code.isError = false) ∧ last.code.isError = true ∧
    result = .error (.invalidParameter last.id last.value last.code (describe last.code))

theorem checkParameter_of_hint {id value : Int32} {code : Word} (fine : code.isError = false) :
    checkParameter id value code = .ok () := by
  unfold checkParameter Status.ofCode
  rw [if_neg (by simp [fine])]

theorem checkParameter_of_isError {id value : Int32} {code : Word} (error : code.isError = true) :
    checkParameter id value code = .error (.invalidParameter id value code (describe code)) := by
  unfold checkParameter Status.ofCode errorName
  rw [if_pos error, if_pos error]
  rfl

variable {pairs : List (Int32 × Int32)} {asked : List Asked} {result : Except Fault Unit}
  {id value : Int32} {code : Word}

theorem Went.nil : Went [] [] (.ok ()) :=
  ⟨rfl, by simp, fun _ => rfl, fun bad => absurd rfl bad⟩

theorem Went.stop (error : code.isError = true) :
    Went ((id, value) :: pairs) [⟨id, value, code⟩]
      (.error (.invalidParameter id value code (describe code))) :=
  ⟨rfl, by simp [error], nofun, fun _ => ⟨[], _, rfl, nofun, error, rfl⟩⟩

theorem Went.cons (went : Went pairs asked result) (fine : code.isError = false) :
    Went ((id, value) :: pairs) (⟨id, value, code⟩ :: asked) result := by
  refine ⟨?_, ?_, fun ok => congrArg (· + 1) (went.whole ok), fun bad => ?_⟩
  · exact congrArg ((id, value) :: ·) went.inOrder
  · rw [went.ok_iff, List.forall_mem_cons]
    exact (and_iff_right fine).symm
  · obtain ⟨earlier, last, rfl, before, error, reported⟩ := went.refused bad
    exact ⟨_ :: earlier, last, rfl, List.forall_mem_cons.mpr ⟨fine, before⟩, error, reported⟩

/-- The record grows by what was asked for, and nothing else is different for it. -/
theorem setAll_overheard (codec : Compressor σ) (s : σ) (seen : List Asked)
    (pairs : List (Int32 × Int32)) :
    ∃ asked, codec.overheard.setAll (s, seen) pairs =
        ((codec.setAll s pairs).1, ((codec.setAll s pairs).2, seen ++ asked)) ∧
      Went pairs asked (codec.setAll s pairs).1 := by
  induction pairs generalizing s seen with
  | nil => exact ⟨[], by simp [setAll], .nil⟩
  | cons pair rest ih =>
    obtain ⟨id, value⟩ := pair
    generalize answered : codec.setParameter s id value = answer
    obtain ⟨code, s'⟩ := answer
    have heard : codec.overheard.setParameter (s, seen) id value =
        (code, (s', seen ++ [⟨id, value, code⟩])) := by
      simp only [overheard, answered]
    unfold setAll
    rw [answered, heard]
    dsimp only
    cases error : code.isError with
    | false =>
      rw [checkParameter_of_hint error]
      obtain ⟨asked, run, went⟩ := ih s' (seen ++ [⟨id, value, code⟩])
      refine ⟨⟨id, value, code⟩ :: asked, ?_, went.cons error⟩
      rw [List.append_assoc] at run
      exact run
    | true =>
      rw [checkParameter_of_isError error]
      exact ⟨[⟨id, value, code⟩], rfl, .stop error⟩

end Compressor

namespace Options

theorem value_apply (o : Options) (codec : Compressor σ) (s : σ) :
    (o.apply codec s).value = codec.setAll s o.parameters := by
  unfold apply
  generalize codec.setAll s o.parameters = done
  obtain ⟨result, s'⟩ := done
  dsimp only
  split <;> rfl

theorem mem_settings_iff {o : Options} {p : Parameter} {value : Int32} :
    (p, value) ∈ o.settings ↔ p = .level ∧ value = o.level ∨
      p = .checksum ∧ value = flagValue o.checksum ∨
      p = .contentSize ∧ value = flagValue o.contentSize ∨
      (p = .windowLog ∧ ∃ w, o.windowLog = some w ∧ value = clampValue w) ∨
      p = .longDistance ∧ o.longDistance = true ∧ value = 1 := by
  have window : (p, value) ∈ (o.windowLog.map fun w => (Parameter.windowLog, clampValue w)).toList ↔
      p = .windowLog ∧ ∃ w, o.windowLog = some w ∧ value = clampValue w := by
    cases o.windowLog <;> simp
  have far : (p, value) ∈ (if o.longDistance then [(Parameter.longDistance, (1 : Int32))] else []) ↔
      p = .longDistance ∧ o.longDistance = true ∧ value = 1 := by
    cases o.longDistance <;> simp
  unfold settings
  rw [List.mem_append, List.mem_append, window, far]
  simp [or_assoc]

theorem mem_parameters_iff {o : Options} {p : Parameter} {value : Int32} :
    (p.id, value) ∈ o.parameters ↔ (p, value) ∈ o.settings := by
  unfold parameters
  rw [List.mem_map]
  constructor
  · rintro ⟨⟨q, v⟩, there, same⟩
    obtain ⟨sameId, rfl⟩ := Prod.mk.injEq .. ▸ same
    obtain rfl := Parameter.id_inj.mp sameId
    exact there
  · intro there
    exact ⟨(p, value), there, rfl⟩

/-- The settings say what the options say: each number at most once, and with the value that the
options give it. -/
structure Carried (o : Options) (pairs : List (Int32 × Int32)) : Prop where
  once : (pairs.map Prod.fst).Nodup
  level : ∀ v, (Parameter.level.id, v) ∈ pairs ↔ v = o.level
  checksum : ∀ v, (Parameter.checksum.id, v) ∈ pairs ↔ v.toInt = o.checksum.toInt
  contentSize : ∀ v, (Parameter.contentSize.id, v) ∈ pairs ↔ v.toInt = o.contentSize.toInt
  windowLog : ∀ v, (Parameter.windowLog.id, v) ∈ pairs ↔
    ∃ w, o.windowLog = some w ∧ v.toInt = min (w.toNat : Int) Int32.maxValue.toInt
  longDistance : ∀ v, (Parameter.longDistance.id, v) ∈ pairs ↔ o.longDistance = true ∧ v = 1
  noOther : ∀ pair ∈ pairs, ∃ p ∈ [Parameter.level, .checksum, .contentSize, .windowLog,
    .longDistance], p.id = pair.1

@[simp]
theorem toInt_flagValue (b : Bool) : (flagValue b).toInt = b.toInt := by
  cases b <;> rfl

@[simp]
theorem toInt_clampValue (w : UInt32) :
    (clampValue w).toInt = min (w.toNat : Int) Int32.maxValue.toInt := by
  have top : Int32.maxValue.toInt = 0x7fffffff := rfl
  unfold clampValue
  rw [Int32.toInt_ofNat_of_lt (by omega), top]
  omega

theorem carried (o : Options) : o.Carried o.parameters := by
  refine ⟨?_, fun v => ?_, fun v => ?_, fun v => ?_, fun v => ?_, fun v => ?_, ?_⟩
  · have ids : o.parameters.map Prod.fst = (o.settings.map Prod.fst).map Parameter.id := by
      simp [parameters]
    rw [ids]
    have nodup : (o.settings.map Prod.fst).Nodup := by
      unfold settings
      cases o.windowLog <;> cases o.longDistance <;> simp
    exact List.Pairwise.map _ (fun p q differ same => differ (Parameter.id_inj.mp same)) nodup
  · simp [mem_parameters_iff, mem_settings_iff]
  · simp [mem_parameters_iff, mem_settings_iff, ← Int32.toInt_inj]
  · simp [mem_parameters_iff, mem_settings_iff, ← Int32.toInt_inj]
  · simp [mem_parameters_iff, mem_settings_iff, ← Int32.toInt_inj]
  · simp [mem_parameters_iff, mem_settings_iff]
  · intro pair member
    obtain ⟨⟨p, v⟩, there, rfl⟩ := List.mem_map.mp member
    refine ⟨p, ?_, rfl⟩
    rcases mem_settings_iff.mp there with h | h | h | h | h <;> simp [h.1]

theorem admits_of_mem_settings {o : Options} {p : Parameter} {value : Int32}
    (there : (p, value) ∈ o.settings) :
    (Frame.domain p).Admits value ∧ ¬Frame.Blurred p value := by
  have plain : ∀ b, ¬(flagValue b ≠ 0 ∧ flagValue b ≠ 1) := by decide
  rcases mem_settings_iff.mp there with
    ⟨rfl, rfl⟩ | ⟨rfl, rfl⟩ | ⟨rfl, rfl⟩ | ⟨rfl, w, -, rfl⟩ | ⟨rfl, -, rfl⟩
  · exact ⟨trivial, fun blurred => nomatch blurred.1⟩
  · exact ⟨trivial, fun blurred => plain _ blurred.2⟩
  · exact ⟨trivial, fun blurred => plain _ blurred.2⟩
  · refine ⟨?_, fun blurred => nomatch blurred.1⟩
    have top : Int32.maxValue.toInt = 0x7fffffff := rfl
    change 0 ≤ clampValue w
    rw [Int32.le_iff_toInt_le, toInt_clampValue, top]
    change 0 ≤ _
    omega
  · exact ⟨trivial, fun blurred => blurred.2.2 rfl⟩

end Options

/-- The codec is asked for a front part of the settings, in order; the result is ok exactly if it
refused none of them, and then it was asked for all; otherwise it was asked for no more after its
first refusal, which is what is reported. The settings carry the options, and a codec behind the
mapping from raw numbers hears each of them as it is. -/
theorem Options.apply_stops_at_refusal (o : Options) (codec : Compressor σ) (s : σ) :
    let x := (o.apply codec s).value
    (∃ asked, (o.apply codec.overheard (s, [])).value = (x.1, (x.2, asked)) ∧
      Compressor.Went o.parameters asked x.1) ∧
    o.Carried o.parameters ∧
    Frame.compressor.setParameter = Frame.Setting.feed Frame.Encoder.set ∧
    ∀ {τ : Type} (set : τ → Frame.Setting → Word × τ) (t : τ) (seen : List (Int32 × Int32)),
      ∀ pair ∈ o.parameters, ∃ p : Parameter, p.id = pair.1 ∧
        Frame.Setting.feed (Frame.Setting.listening set) (t, seen) pair.1 pair.2 =
          ((set t ⟨p, pair.2⟩).1, ((set t ⟨p, pair.2⟩).2, seen ++ [pair])) := by
  intro x
  refine ⟨?_, o.carried, rfl, fun set t seen pair member => ?_⟩
  · obtain ⟨asked, run, went⟩ := codec.setAll_overheard s [] o.parameters
    refine ⟨asked, ?_, ?_⟩
    · rw [value_apply, run, List.nil_append, ← value_apply]
    · change Compressor.Went _ _ (o.apply codec s).value.1
      rw [value_apply]
      exact went
  · obtain ⟨⟨p, value⟩, there, rfl⟩ := List.mem_map.mp member
    obtain ⟨fit, clear⟩ := admits_of_mem_settings there
    refine ⟨p, rfl, ?_⟩
    rw [Frame.Setting.feed_listening rfl fit, Frame.standIn_eq_self_iff.mpr clear]

/-- A window that is out of bounds is what is reported, and long-distance matching is not asked
for. -/
example :
    let options : Options := { windowLog := some 100, longDistance := true }
    let x := (options.apply Frame.compressor {}).value
    x.1 = .error (.invalidParameter 101 100 ErrorNumber.parameterOutOfBound.code
        "Parameter is out of bound") ∧
      x.2.settings.longDistance = false :=
  ⟨rfl, rfl⟩

end Sluice
