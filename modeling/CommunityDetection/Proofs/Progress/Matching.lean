import CommunityDetection.Proofs.Progress.Session

/-!
# Matching sessions

Two sessions match if from every journal they write the same and end with the same failure or with
related values. Sessions match if their parts match in order.
-/

namespace CommunityDetection.Session

variable {α β β' γ γ' : Type} {related : β → β' → Prop} {after : γ → γ' → Prop}
  {left : Session α β} {right : Session α β'}

/-- The ends of two sessions: the same failure or related values, with the same journal. -/
inductive Agree {ι : Type} (related : β → β' → Prop) :
    Except (Error α) β × ι → Except (Error α) β' × ι → Prop
  | error {failure journal} : Agree related (.error failure, journal) (.error failure, journal)
  | ok {x y journal} (holds : related x y) : Agree related (.ok x, journal) (.ok y, journal)

/-- Two sessions agree whatever happened before. -/
def Matches (related : β → β' → Prop) (left : Session α β) (right : Session α β') : Prop :=
  ∀ watch journal, Agree related (left watch journal) (right watch journal)

theorem Matches.refl (body : Session α β) : Matches (fun x y => x = y) body body := by
  intro watch journal
  cases ran : body watch journal with
  | mk outcome rest =>
    cases outcome with
    | error failure => exact .error
    | ok value => exact .ok rfl

theorem matches_pure {x : β} {y : β'} (holds : related x y) :
    Matches related (pure x : Session α β) (pure y) := fun _ _ => .ok holds

theorem matches_throw (failure : Error α) :
    Matches related (throw failure : Session α β) (throw failure) := fun _ _ => .error

theorem matches_ofExcept {x : β} {y : β'} (holds : related x y) :
    Matches related (ofExcept (.ok x) : Session α β) (ofExcept (.ok y)) := fun _ _ => .ok holds

theorem Matches.of_gives {other : β → β' → Prop} (same : Matches related left right)
    (rest : ∀ x y, related x y → Gives left x → Gives right y → other x y) :
    Matches other left right := by
  intro watch journal
  have agree := same watch journal
  cases ranLeft : left watch journal with
  | mk outcome between =>
    cases ranRight : right watch journal with
    | mk outcome' between' =>
      rw [ranLeft, ranRight] at agree
      cases agree with
      | error => exact .error
      | @ok x y _ holds =>
        exact .ok (rest x y holds ⟨watch, journal, by rw [ranLeft]⟩ ⟨watch, journal, by rw [ranRight]⟩)

theorem Matches.bind {next : β → Session α γ} {next' : β' → Session α γ'}
    (first : Matches related left right)
    (rest : ∀ x y, related x y → Gives left x → Gives right y → Matches after (next x) (next' y)) :
    Matches after (left >>= next) (right >>= next') := by
  intro watch journal
  rw [bind_apply, bind_apply]
  have agree := first watch journal
  cases ranLeft : left watch journal with
  | mk outcome between =>
    cases ranRight : right watch journal with
    | mk outcome' between' =>
      rw [ranLeft, ranRight] at agree
      cases agree with
      | error => exact .error
      | @ok x y _ holds =>
        have givesLeft : Gives left x := ⟨watch, journal, by rw [ranLeft]⟩
        have givesRight : Gives right y := ⟨watch, journal, by rw [ranRight]⟩
        exact rest x y holds givesLeft givesRight watch between

theorem matches_bind_same {body : Session α β} {next : β → Session α γ} {next' : β → Session α γ'}
    (rest : ∀ x, Gives body x → Matches after (next x) (next' x)) :
    Matches after (body >>= next) (body >>= next') :=
  (Matches.refl body).bind fun x _ same gives _ => same ▸ rest x gives

theorem Agree.eq {ι : Type} {x y : Except (Error α) β × ι} (agree : Agree (fun x y => x = y) x y) : x = y := by
  cases agree with
  | error => rfl
  | ok same => rw [same]

theorem Matches.eq {left right : Session α β} (same : Matches (fun x y => x = y) left right) : left = right :=
  funext fun watch => funext fun journal => (same watch journal).eq

theorem Agree.map {ι : Type} {f : β' → β} {kind : β' → Prop} {x : Except (Error α) β × ι}
    {y : Except (Error α) β' × ι} (agree : Agree (fun value other => value = f other ∧ kind other) x y) :
    x.1 = y.1.map f ∧ ∀ other, y.1 = .ok other → kind other := by
  cases agree with
  | error => exact ⟨rfl, nofun⟩
  | @ok value other _ holds =>
    refine ⟨congrArg Except.ok holds.1, fun found equal => ?_⟩
    cases equal
    exact holds.2

theorem Matches.run (same : Matches related left right) (watch : Watch α) :
    Agree related (run watch left) (run watch right) := by
  have agree := same watch ((Journal.start watch).report watch (.begins .leiden))
  unfold Session.run
  dsimp only
  revert agree
  generalize left watch _ = first, right watch _ = second
  intro agree
  cases agree with
  | error => exact .error
  | ok holds => exact .ok holds

theorem Matches.stage (same : Matches related left right) (name : Stage) :
    Matches related (stage name left) (stage name right) :=
  matches_bind_same fun _ _ => same.bind fun _ _ holds _ _ =>
    matches_bind_same fun _ _ => matches_pure holds

end CommunityDetection.Session
