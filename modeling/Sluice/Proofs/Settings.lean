import Sluice.Frame.Encoder

namespace Sluice

variable {σ : Type}

namespace Parameter

@[simp]
theorem ofId?_id (p : Parameter) : ofId? p.id = some p := by
  cases p <;> rfl

theorem ofId?_eq_some_iff {n : Int32} {p : Parameter} : ofId? n = some p ↔ p.id = n := by
  constructor
  · intro found
    unfold ofId? at found
    simpa using List.find?_some found
  · rintro rfl
    exact ofId?_id p

theorem ofId?_eq_none_iff {n : Int32} : ofId? n = none ↔ ∀ p : Parameter, p.id ≠ n := by
  rw [Option.eq_none_iff_forall_ne_some]
  exact forall_congr' fun p => not_congr ofId?_eq_some_iff

@[simp]
theorem id_inj {p q : Parameter} : p.id = q.id ↔ p = q := by
  constructor
  · intro same
    have found := ofId?_eq_some_iff.mpr same
    rw [ofId?_id] at found
    exact (Option.some.inj found).symm
  · rintro rfl
    rfl

end Parameter

namespace Frame

def Domain.Admits : Domain → Int32 → Prop
  | signed, _ => True
  | unsigned, value => 0 ≤ value
  | strategy, value => 1 ≤ value ∧ value ≤ 9
  | flag, _ => True

/-- The parameter is on or off, and the value is neither 0 nor 1. -/
def Blurred (p : Parameter) (value : Int32) : Prop := domain p = .flag ∧ value ≠ 0 ∧ value ≠ 1

/-- What stands for a value: the value, or 1 for every way to be on. -/
def Domain.standIn : Domain → Int32 → Int32
  | flag, value => flagValue (value != 0)
  | _, value => value

namespace Domain

theorem represent?_of_admits {d : Domain} {value : Int32} (fit : d.Admits value) :
    d.represent? value = some (d.standIn value) := by
  cases d with
  | signed => rfl
  | unsigned => exact if_pos fit
  | strategy =>
    obtain ⟨low, high⟩ := fit
    simp [represent?, standIn, low, high]
  | flag => rfl

theorem represent?_of_not_admits {d : Domain} {value : Int32} (unfit : ¬d.Admits value) :
    d.represent? value = none := by
  cases d with
  | signed => exact absurd trivial unfit
  | unsigned => exact if_neg unfit
  | strategy =>
    refine if_neg fun inside => unfit ?_
    change 1 ≤ value ∧ value ≤ 9
    simpa using inside
  | flag => exact absurd trivial unfit

theorem standIn_flag (value : Int32) : flag.standIn value = if value = 0 then 0 else 1 := by
  by_cases off : value = 0 <;> simp [standIn, flagValue, off]

/-- Two values of a parameter come to the same only as two ways to be on. -/
theorem standIn_eq_iff {d : Domain} {value other : Int32} (differ : value ≠ other) :
    d.standIn value = d.standIn other ↔ d = .flag ∧ value ≠ 0 ∧ other ≠ 0 := by
  cases d with
  | flag =>
    rw [standIn_flag, standIn_flag]
    by_cases off : value = 0
    · subst off
      simp [differ.symm]
    · by_cases off' : other = 0 <;> simp [off, off']
  | _ => simp [standIn, differ]

end Domain

theorem standIn_eq_self_iff {p : Parameter} {value : Int32} :
    (domain p).standIn value = value ↔ ¬Blurred p value := by
  unfold Blurred
  cases hd : domain p with
  | flag =>
    rw [Domain.standIn_flag]
    by_cases off : value = 0
    · simp [off]
    · simp [off, eq_comm]
  | _ => simp [Domain.standIn]

theorem Blurred.standIn_eq {p : Parameter} {value : Int32} (blurred : Blurred p value) :
    (domain p).standIn value = 1 := by
  rw [blurred.1, Domain.standIn_flag, if_neg blurred.2.1]

namespace Setting

def feed (set : σ → Setting → Word × σ) (s : σ) (id value : Int32) : Word × σ :=
  match ofRaw id value with
  | .error number => (number.code, s)
  | .ok setting => set s setting

/-- The same codec, keeping the numbers of the settings that reach it. -/
def listening (set : σ → Setting → Word × σ) (p : σ × List (Int32 × Int32)) (setting : Setting) :
    Word × (σ × List (Int32 × Int32)) :=
  let (code, s) := set p.1 setting
  (code, (s, p.2 ++ [(setting.parameter.id, setting.value)]))

variable {set : σ → Setting → Word × σ} {s : σ} {id value : Int32} {p : Parameter}

theorem feed_of_unknown (unknown : ∀ p : Parameter, p.id ≠ id) :
    feed set s id value = (ErrorNumber.parameterUnsupported.code, s) := by
  unfold feed ofRaw
  rw [Parameter.ofId?_eq_none_iff.mpr unknown]

theorem feed_of_not_admits (named : p.id = id) (unfit : ¬(domain p).Admits value) :
    feed set s id value = (ErrorNumber.parameterOutOfBound.code, s) := by
  unfold feed ofRaw
  rw [Parameter.ofId?_eq_some_iff.mpr named]
  dsimp only
  rw [Domain.represent?_of_not_admits unfit]

theorem feed_of_admits (named : p.id = id) (fit : (domain p).Admits value) :
    feed set s id value = set s ⟨p, (domain p).standIn value⟩ := by
  unfold feed ofRaw
  rw [Parameter.ofId?_eq_some_iff.mpr named]
  dsimp only
  rw [Domain.represent?_of_admits fit]

theorem feed_listening (named : p.id = id) (fit : (domain p).Admits value)
    (seen : List (Int32 × Int32)) :
    feed (listening set) (s, seen) id value =
      let sent := (domain p).standIn value
      ((set s ⟨p, sent⟩).1, ((set s ⟨p, sent⟩).2, seen ++ [(id, sent)])) := by
  rw [feed_of_admits named fit, ← named]
  rfl

/-- A pair that is not turned down reaches the codec as it is, except for a parameter that is on or
off and a value that is neither 0 nor 1: there the codec hears 1 instead. So two values of one
parameter are heard as one exactly if both say that it is on. A pair is turned down only if its
number names no parameter, or if the parameter cannot have its value. -/
theorem heard_unchanged_iff (set : σ → Setting → Word × σ) (s : σ) (seen : List (Int32 × Int32))
    (id value : Int32) :
    let x := feed (listening set) (s, seen) id value
    compressor.setParameter = feed Encoder.set ∧
      ((∀ p : Parameter, p.id ≠ id) →
        x = (ErrorNumber.parameterUnsupported.code, (s, seen))) ∧
      ∀ p : Parameter, p.id = id →
        (¬(domain p).Admits value → x = (ErrorNumber.parameterOutOfBound.code, (s, seen))) ∧
        ((domain p).Admits value → ∃ sent,
          x = ((set s ⟨p, sent⟩).1, ((set s ⟨p, sent⟩).2, seen ++ [(id, sent)])) ∧
            (sent = value ↔ ¬Blurred p value) ∧ (Blurred p value → sent = 1)) ∧
        ∀ other, (domain p).Admits value → (domain p).Admits other → value ≠ other →
          (x.2.2 = (feed (listening set) (s, seen) id other).2.2 ↔
            domain p = .flag ∧ value ≠ 0 ∧ other ≠ 0) := by
  intro x
  refine ⟨rfl, fun unknown => feed_of_unknown unknown, fun p named => ⟨?_, fun fit => ?_, ?_⟩⟩
  · exact fun unfit => feed_of_not_admits named unfit
  · exact ⟨_, feed_listening named fit seen, standIn_eq_self_iff, Blurred.standIn_eq⟩
  · intro other fit fit' differ
    have heard : ∀ {v}, (domain p).Admits v →
        (feed (listening set) (s, seen) id v).2.2 = seen ++ [(id, (domain p).standIn v)] := by
      intro v fit
      rw [feed_listening named fit]
    rw [heard fit, heard fit', ← Domain.standIn_eq_iff differ]
    simp

/-- A window log comes through, a strategy that does not exist is turned down, and so is a number
that names nothing. -/
theorem heard_unchanged_windowLog :
    let x := feed (listening Encoder.set) ({}, []) 101 20
    x.2.2 = [(101, 20)] ∧
      feed (listening Encoder.set) ({}, []) 107 10 =
        (ErrorNumber.parameterOutOfBound.code, ({}, [])) ∧
      feed (listening Encoder.set) ({}, []) 42 1 =
        (ErrorNumber.parameterUnsupported.code, ({}, [])) := by
  intro x
  obtain ⟨-, -, known⟩ := heard_unchanged_iff Encoder.set {} [] 101 20
  obtain ⟨-, -, strategies⟩ := heard_unchanged_iff Encoder.set {} [] 107 10
  obtain ⟨-, unknown, -⟩ := heard_unchanged_iff Encoder.set {} [] 42 1
  obtain ⟨sent, heard, same, -⟩ := (known .windowLog rfl).2.1 (show (0 : Int32) ≤ 20 by decide)
  refine ⟨?_, (strategies .strategy rfl).1 ?_, unknown fun p => ?_⟩
  · obtain rfl := same.mpr fun blurred => nomatch blurred.1
    exact congrArg (fun y : Word × Encoder × List (Int32 × Int32) => y.2.2) heard
  · rintro ⟨-, high⟩
    exact absurd high (by decide)
  · cases p <;> decide

/-- Long-distance matching is asked for with 2, which is neither off nor on, and heard as on. -/
theorem not_heard_unchanged :
    (feed (listening Encoder.set) ({}, []) 160 2).2.2 = [(160, 1)] ∧
      feed (listening Encoder.set) ({}, []) 160 2 = feed (listening Encoder.set) ({}, []) 160 1 ∧
      (compressor.setParameter {} 160 2).1 = 1 ∧
      (compressor.setParameter {} 160 2).2.settings.longDistance = true :=
  ⟨rfl, rfl, rfl, rfl⟩

end Setting

end Frame

end Sluice
