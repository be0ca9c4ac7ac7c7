-- The laws of validation. A struct or a union that is only asked about is refused for the same
-- fault as one that is registered: it has no members, or one of them is unknown, and the first
-- unknown one is named. The registry finds it before it does anything, an engine on its way.
import DataLayout.Proofs.Totality

namespace DataLayout

open Logged Text

/-! ## What is wrong with a list of members -/

/-- The judgement on the members of a struct or a union: there are none, the first unknown one
stands behind known ones, or all of them are registered. -/
inductive Registry.Judges (r : Registry) : List String → Except Failure Unit → Prop
  | empty : r.Judges [] (.error (.type ⟨.emptyCompound, none⟩))
  | unknown {before after : List String} {n : String} (hbefore : ∀ m ∈ before, m ∈ r.names)
      (hn : n ∉ r.names) : r.Judges (before ++ n :: after) (.error (.type (.unknown n)))
  | known {names : List String} (hnames : names ≠ []) (hall : ∀ n ∈ names, n ∈ r.names) :
      r.Judges names (.ok ())

/-- Whether an answer was given, and why not. -/
def verdict {α : Type} : Except Failure α → Except Failure Unit
  | .ok _ => .ok ()
  | .error failure => .error failure

/-! ## Registration -/

namespace Registry

variable {r : Registry}

/-- The check before a registration judges the members. -/
theorem judges_checkMembers (r : Registry) (names : List String) :
    ∃ judgement, r.Judges names judgement ∧
      ((judgement = .ok () ∧ r.checkMembers names = .ok ()) ∨
        ∃ fault, judgement = .error (.type fault) ∧ r.checkMembers names = .error fault) := by
  rcases r.checkMembers_cases names with ⟨rfl, hfault⟩ |
    ⟨before, n, after, rfl, hbefore, hn, hfault⟩ | ⟨hempty, hall, hok⟩
  · exact ⟨_, .empty, Or.inr ⟨_, rfl, hfault⟩⟩
  · exact ⟨_, .unknown hbefore hn, Or.inr ⟨_, rfl, hfault⟩⟩
  · exact ⟨_, .known hempty hall, Or.inl ⟨rfl, hok⟩⟩

/-- A call for a struct or a union under a new name is judged by its members. -/
theorem judges_call {name : String} (hname : name ∉ r.names) {d : Definition}
    (hd : d.kind ≠ .atomic) :
    r.Judges d.references (r.call .unlimited ⟨name, .ofDefinition d⟩).1 ∧
      ((r.call .unlimited ⟨name, .ofDefinition d⟩).1 ≠ .ok () →
        (r.call .unlimited ⟨name, .ofDefinition d⟩).2 = r) := by
  have hcheck := check_compound hname hd
  have hoffer := Offer.definition?_ofDefinition d
  obtain ⟨judgement, hjudges, ⟨rfl, hok⟩ | ⟨fault, rfl, herror⟩⟩ :=
    judges_checkMembers r d.references
  · rw [call_of_check .unlimited (c := ⟨name, .ofDefinition d⟩) hoffer (hcheck.trans hok)]
    have hwritable : d.writable .unlimited = true := by cases d <;> rfl
    rw [if_pos hwritable]
    exact ⟨hjudges, fun h => absurd rfl h⟩
  · rw [call_of_check_error .unlimited (c := ⟨name, .ofDefinition d⟩) hoffer
      (hcheck.trans herror)]
    exact ⟨hjudges, fun _ => rfl⟩

end Registry

/-! ## Questions -/

/-- The first element that fails is the failure of all. -/
theorem mapM_eq_error {α β : Type} {f : α → Except Failure β} {before after : List α} {a : α}
    {failure : Failure} (hbefore : ∀ b ∈ before, ∃ answer, f b = .ok answer)
    (ha : f a = .error failure) : (before ++ a :: after).mapM f = .error failure := by
  induction before with
  | nil =>
    rw [List.nil_append, List.mapM_cons, ha]
    rfl
  | cons b rest ih =>
    obtain ⟨answer, hanswer⟩ := hbefore b List.mem_cons_self
    rw [List.cons_append, List.mapM_cons, hanswer, ok_bind,
      ih fun c hc => hbefore c (List.mem_cons_of_mem _ hc)]
    rfl

namespace Registry

open Footprint

section

variable {r : Registry} (h : WellFormed r.entries) (p : Packing)

include h in
/-- Whatever measures all members fails for the fault that they are judged with. -/
theorem error_of_judges {α : Type} {names : List String} {failure : Failure}
    (hj : r.Judges names (.error failure)) (next : List Member → Except Failure α) :
    (requireMembers names >>= fun _ => membersOf (r.extent .unlimited p) names >>= next) =
      .error failure := by
  cases hj with
  | empty => rfl
  | @unknown before after n hbefore hn =>
    have hfails : membersOf (r.extent .unlimited p) (before ++ n :: after) =
        .error (.type (.unknown n)) := by
      apply mapM_eq_error
      · intro m hm
        have hextent := (extent_of_registered h p ((r.mem_names_iff m).mp (hbefore m hm))).1
        exact ⟨⟨m, r.taken p m⟩, by rw [hextent]; rfl⟩
      · have hnone : r.lookup? n = none := by
          rw [← Option.not_isSome_iff_eq_none]
          exact fun hsome => hn ((r.mem_names_iff n).mpr hsome)
        rw [extent_of_none .unlimited p hnone]
        rfl
    rw [requireMembers_of_ne_nil (by simp), ok_bind, hfails]
    rfl

variable {d : Definition} (hd : d.kind ≠ .atomic)

include h hd in
theorem sizeOf_of_judges {failure : Failure} (hj : r.Judges d.references (.error failure)) :
    r.sizeOf .unlimited p d = .error failure := by
  cases d with
  | atomic size alignment => exact absurd rfl hd
  | struct names => exact error_of_judges h p hj _
  | union names => exact error_of_judges h p hj _

include h hd in
theorem alignmentOf_of_judges (hall : d.kind = .union ∨ p = .optimized) {failure : Failure}
    (hj : r.Judges d.references (.error failure)) :
    r.alignmentOf .unlimited p d = .error failure := by
  cases d with
  | atomic size alignment => exact absurd rfl hd
  | struct names =>
    rcases hall with hunion | rfl
    · cases hunion
    · exact error_of_judges h .optimized hj _
  | union names => exact error_of_judges h p hj _

include hd in
/-- Known members make a definition that fits. -/
theorem fits_of_judges (hj : r.Judges d.references (.ok ())) : d.Fits r.entries := by
  have hmembers : d.references ≠ [] ∧ ∀ n ∈ d.references, (r.lookup? n).isSome := by
    generalize d.references = names at hj
    cases hj with
    | known hnames hall => exact ⟨hnames, fun n hn => (r.mem_names_iff n).mp (hall n hn)⟩
  cases d with
  | atomic size alignment => exact absurd rfl hd
  | struct names => exact hmembers
  | union names => exact hmembers

end

end Registry

namespace Question

/-- The questions that look at every member of a definition. The alignment of a struct takes
that only when the best ordering is searched for. -/
inductive Surveys (d : Definition) : Question → Prop
  | size (p : Packing) : Surveys d (.size p (.ofDefinition d))
  | loss (p : Packing) : Surveys d (.loss p (.ofDefinition d))
  | layout (p : Packing) : Surveys d (.layout p (.ofDefinition d))
  | alignment (p : Packing) (h : d.kind = .union ∨ p = .optimized) :
      Surveys d (.alignment p (.ofDefinition d))

/-- A question that looks at every member is answered exactly when the members are judged to
be right, and else it fails for their fault. -/
theorem verdict_plain {r : Registry} (h : WellFormed r.entries) {d : Definition}
    (hd : d.kind ≠ .atomic) {q : Question} (hq : q.Surveys d) {judgement : Except Failure Unit}
    (hj : r.Judges d.references judgement) : verdict (q.plain .unlimited r) = judgement := by
  cases judgement with
  | ok _ =>
    have hlayout := fun p => Registry.layoutOf_of_fits h p (Registry.fits_of_judges hd hj)
    cases hq with
    | size p =>
      obtain ⟨l, _, _, hsize, _⟩ := hlayout p
      rw [plain_size, hsize]
      rfl
    | loss p =>
      obtain ⟨l, _, _, _, _, hloss, _⟩ := hlayout p
      rw [plain_loss, hloss]
      rfl
    | layout p =>
      obtain ⟨l, _, _, _, _, _, hl⟩ := hlayout p
      rw [plain_layout, hl]
      rfl
    | alignment p _ =>
      obtain ⟨l, _, _, _, halign, _⟩ := hlayout p
      rw [plain_alignment, halign]
      rfl
  | error failure =>
    -- The loss and the layout measure the size first.
    have hsize := fun p => Registry.sizeOf_of_judges h p hd hj
    cases hq with
    | size p =>
      rw [plain_size, hsize]
      rfl
    | loss p =>
      rw [plain_loss]
      unfold Registry.lossOf
      rw [hsize]
      rfl
    | layout p =>
      rw [plain_layout]
      unfold Registry.layoutOf
      rw [hsize]
      rfl
    | alignment p hall =>
      rw [plain_alignment, Registry.alignmentOf_of_judges h p hd hall hj]
      rfl

end Question

/-! ## The law -/

/-- To ask is to be judged as for a registration. After any run, a struct or a union with any
members is registered under a new name exactly when every question that looks at all members
is answered, by any engine, and both fail for the same fault: no members at all, or the first
unknown one. Neither leaves a trace in the registry, and no memory makes a difference. -/
theorem a_question_fails_just_as_the_registration (steps : List Workshop.Step) (name : String)
    (d : Definition) :
    let w := Workshop.run .unlimited steps
    let registration := w.registry.call .unlimited ⟨name, .ofDefinition d⟩
    name ∉ w.registry.names → d.kind ≠ .atomic →
      w.registry.Judges d.references registration.1 ∧
      (registration.1 ≠ .ok () → registration.2 = w.registry) ∧
      ∀ q : Question, q.Surveys d →
        (∀ e ∈ w.engines, verdict (w.answer .unlimited e q) = registration.1 ∧
          w.answer .unlimited e q =
            (Workshop.new w.registry).answer .unlimited .empty q) ∧
        ∀ i, (w.after .unlimited (.ask i q)).registry = w.registry := by
  intro w registration hname hd
  have hw : w.Sound .unlimited := Workshop.sound_run .unlimited steps
  have hnew : (Workshop.new w.registry).Sound .unlimited := Workshop.sound_new hw.wellFormed
  obtain ⟨hjudges, hkept⟩ := Registry.judges_call hname hd
  refine ⟨hjudges, hkept, ?_⟩
  intro q hq
  refine ⟨?_, fun i => hw.registry_after (.ask i q)⟩
  intro e hmem
  have hanswer := hw.answer_eq (hw.engines e hmem) q
  refine ⟨?_, ?_⟩
  · rw [hanswer]
    exact Question.verdict_plain hw.wellFormed hd hq hjudges
  · rw [hanswer]
    exact (hnew.answer_eq Engine.sound_empty q).symm

/-- A number and two engines, one of which was asked before. -/
def askedSteps : List Workshop.Step :=
  [.newEngine, .register ⟨"int", .atomic (.integer 4) (.integer 4)⟩,
    .ask 0 (.size .optimized (.struct ["int", "int"])), .newEngine]

/-- The first of two ghosts is named, also behind a number that the engine knows already. -/
theorem the_first_ghost_is_named :
    let w := Workshop.run .unlimited askedSteps
    let d := Definition.struct ["int", "ghost", "phantom"]
    "pair" ∉ w.registry.names ∧
      (w.registry.call .unlimited ⟨"pair", .ofDefinition d⟩).1 =
        .error (.type (.unknown "ghost")) ∧
      ∀ e ∈ w.engines, verdict (w.answer .unlimited e (.loss .optimized (.ofDefinition d))) =
        .error (.type (.unknown "ghost")) := by
  intro w d
  have hname : "pair" ∉ w.registry.names := by decide
  have hcall : (w.registry.call .unlimited ⟨"pair", .ofDefinition d⟩).1 =
      .error (.type (.unknown "ghost")) := rfl
  obtain ⟨_, _, hquestions⟩ := a_question_fails_just_as_the_registration askedSteps "pair" d hname
    (by decide)
  obtain ⟨hanswers, _⟩ := hquestions _ (.loss .optimized)
  exact ⟨hname, hcall, fun e he => (hanswers e he).1.trans hcall⟩

/-! ## Members that are overlooked -/

namespace Registry

open Footprint

/-- The alignment of a struct is that of its first member, and in the declared order no other
member is looked at for it. So an unknown member behind a known first one is overlooked. -/
def Overlooks (r : Registry) (p : Packing) (d : Definition) : Prop :=
  p ≠ .optimized ∧ ∃ first rest, d = .struct (first :: rest) ∧ first ∈ r.names ∧
    ∃ n ∈ rest, n ∉ r.names

section

variable {r : Registry} (h : WellFormed r.entries) {p : Packing} {d : Definition}

include h in
/-- The alignment fails for the fault of the members, unless it overlooks them. -/
theorem alignmentOf_of_not_overlooks (hd : d.kind ≠ .atomic) (hnot : ¬ r.Overlooks p d)
    {failure : Failure} (hj : r.Judges d.references (.error failure)) :
    r.alignmentOf .unlimited p d = .error failure := by
  by_cases hall : d.kind = .union ∨ p = .optimized
  · exact alignmentOf_of_judges h p hd hall hj
  obtain ⟨hunion, hp⟩ := not_or.mp hall
  cases d with
  | atomic size alignment => exact absurd rfl hd
  | union names => exact absurd rfl hunion
  | struct names =>
    change r.Judges names (.error failure) at hj
    cases hj with
    | empty => rfl
    | @unknown before after n hbefore hn =>
      cases before with
      | nil =>
        rw [List.nil_append, alignmentOf_struct_cons hp,
          extent_of_none .unlimited p ((r.notMem_names_iff n).mp hn)]
        rfl
      | cons first rest =>
        exact absurd ⟨hp, first, rest ++ n :: after, rfl, hbefore first List.mem_cons_self, n,
          by simp, hn⟩ hnot

include h in
/-- An alignment that overlooks members is that of the first one. -/
theorem alignmentOf_of_overlooks (ho : r.Overlooks p d) : ∃ first e,
    d.references.head? = some first ∧ r.extent .unlimited p first = .ok e ∧
      r.alignmentOf .unlimited p d = .ok e.alignment := by
  obtain ⟨hp, first, rest, rfl, hfirst, _⟩ := ho
  obtain ⟨hextent, _⟩ := extent_of_registered h p ((r.mem_names_iff first).mp hfirst)
  refine ⟨first, r.taken p first, rfl, hextent, ?_⟩
  rw [alignmentOf_struct_cons hp, hextent]
  rfl

/-- Where a member is overlooked, the first unknown one is still the judgement. -/
theorem judges_of_overlooks (ho : r.Overlooks p d) : ∃ n, n ∉ r.names ∧
    r.Judges d.references (.error (.type (.unknown n))) := by
  obtain ⟨_, first, rest, rfl, _, n, hmem, hn⟩ := ho
  obtain ⟨judgement, hj, _⟩ := judges_checkMembers r (first :: rest)
  change ∃ n, n ∉ r.names ∧ r.Judges (first :: rest) (.error (.type (.unknown n)))
  generalize hnames : first :: rest = names at hj ⊢
  cases hj with
  | empty => cases hnames
  | @unknown before after m hbefore hm => exact ⟨m, hm, .unknown hbefore hm⟩
  | known _ hall => exact absurd (hall n (hnames ▸ List.mem_cons_of_mem _ hmem)) hn

end

end Registry

theorem verdict_eq_ok_iff {α : Type} {answer : Except Failure α} :
    verdict answer = .ok () ↔ ∃ a, answer = .ok a := by
  cases answer <;> simp [verdict]

/-- Unless a member is overlooked, the alignment is given or refused as the members are judged. -/
theorem Question.verdict_plain_alignment {r : Registry} (h : WellFormed r.entries) {p : Packing}
    {d : Definition} (hd : d.kind ≠ .atomic) (hnot : ¬ r.Overlooks p d)
    {judgement : Except Failure Unit} (hj : r.Judges d.references judgement) :
    verdict ((alignment p (.ofDefinition d)).plain .unlimited r) = judgement := by
  rw [plain_alignment]
  cases judgement with
  | ok _ =>
    obtain ⟨l, _, _, _, halign, _⟩ :=
      Registry.layoutOf_of_fits h p (Registry.fits_of_judges hd hj)
    rw [halign]
    rfl
  | error failure =>
    rw [Registry.alignmentOf_of_not_overlooks h hd hnot hj]
    rfl

/-- After any run, with any engine and under each packing, a struct or a union with an unknown
member has no size, and the first unknown one is named. It has no alignment for the same fault, so
a definition has an alignment exactly when it has a size. The one exception is a struct in its
declared order with an unknown member behind a first one that is known: its alignment is that of
the first member, although it has no size. -/
theorem only_unknown_members_behind_a_known_one_are_overlooked (steps : List Workshop.Step)
    (d : Definition) (p : Packing) :
    let w := Workshop.run .unlimited steps
    ∀ e ∈ w.engines,
      let size := w.answer .unlimited e (.size p (.ofDefinition d))
      let alignment := w.answer .unlimited e (.alignment p (.ofDefinition d))
      (∀ before n after, d.references = before ++ n :: after →
        (∀ m ∈ before, m ∈ w.registry.names) → n ∉ w.registry.names →
          size = .error (.type (.unknown n)) ∧
          (¬ w.registry.Overlooks p d → alignment = .error (.type (.unknown n)))) ∧
      (¬ w.registry.Overlooks p d → ((∃ a, alignment = .ok a) ↔ ∃ s, size = .ok s)) ∧
      (w.registry.Overlooks p d → (∃ n, n ∉ w.registry.names ∧
          size = .error (.type (.unknown n))) ∧
        ∃ first extent, d.references.head? = some first ∧
          w.answer .unlimited e (.member p first) = .ok extent ∧
          alignment = .ok (.integer extent.alignment)) := by
  intro w e he size alignment
  have hw : w.Sound .unlimited := Workshop.sound_run .unlimited steps
  have hanswer : ∀ q, w.answer .unlimited e q = q.plain .unlimited w.registry := fun q =>
    hw.answer_eq (hw.engines e he) q
  have hsize : size = w.registry.sizeOf .unlimited p d >>= fun n => .ok (.integer n) :=
    (hanswer _).trans (Question.plain_size .unlimited w.registry p d)
  have halignment : alignment =
      w.registry.alignmentOf .unlimited p d >>= fun n => .ok (.integer n) :=
    (hanswer _).trans (Question.plain_alignment .unlimited w.registry p d)
  refine ⟨fun before n after hsplit hbefore hn => ?_, fun hnot => ?_, fun ho => ⟨?_, ?_⟩⟩
  · have hd : d.kind ≠ .atomic := by
      intro hkind
      cases d <;> cases hkind
      exact List.append_ne_nil_of_right_ne_nil before (List.cons_ne_nil n after) hsplit.symm
    have hj : w.registry.Judges d.references (.error (.type (.unknown n))) :=
      hsplit ▸ .unknown hbefore hn
    refine ⟨?_, fun hnot => ?_⟩
    · rw [hsize, Registry.sizeOf_of_judges hw.wellFormed p hd hj]
      rfl
    · rw [halignment, Registry.alignmentOf_of_not_overlooks hw.wellFormed hd hnot hj]
      rfl
  · by_cases hd : d.kind = .atomic
    · cases d <;> cases hd
      exact ⟨fun _ => ⟨_, hsize⟩, fun _ => ⟨_, halignment⟩⟩
    · obtain ⟨judgement, hj, _⟩ := Registry.judges_checkMembers w.registry d.references
      rw [← verdict_eq_ok_iff, ← verdict_eq_ok_iff]
      have hsame : verdict alignment = verdict size := by
        rw [show size = _ from hanswer _, show alignment = _ from hanswer _,
          Question.verdict_plain_alignment hw.wellFormed hd hnot hj,
          Question.verdict_plain hw.wellFormed hd (.size p) hj]
      rw [hsame]
  · obtain ⟨n, hn, hj⟩ := Registry.judges_of_overlooks ho
    obtain ⟨_, _, _, rfl, _⟩ := ho
    refine ⟨n, hn, ?_⟩
    rw [hsize, Registry.sizeOf_of_judges hw.wellFormed p (by simp [Definition.kind]) hj]
    rfl
  · obtain ⟨first, extent, hfirst, hextent, halign⟩ :=
      Registry.alignmentOf_of_overlooks hw.wellFormed ho
    refine ⟨first, extent, hfirst, (hanswer _).trans hextent, ?_⟩
    rw [halignment, halign]
    rfl

/-- The alignment of a struct is given, and its size is refused for a ghost. -/
theorem a_ghost_behind_a_number_is_overlooked :
    let w := Workshop.run .unlimited askedSteps
    let d := Definition.struct ["int", "ghost"]
    ∀ e ∈ w.engines,
      w.answer .unlimited e (.size .unpacked (.ofDefinition d)) =
        .error (.type (.unknown "ghost")) ∧
      w.answer .unlimited e (.alignment .unpacked (.ofDefinition d)) = .ok (.integer 4) ∧
      w.answer .unlimited e (.alignment .optimized (.ofDefinition d)) =
        .error (.type (.unknown "ghost")) := by
  intro w d e he
  have hknown : ∀ m ∈ ["int"], m ∈ w.registry.names := by decide +kernel
  have hghost : "ghost" ∉ w.registry.names := by decide +kernel
  have hoverlooks : w.registry.Overlooks .unpacked d :=
    ⟨by decide, "int", ["ghost"], rfl, hknown "int" List.mem_cons_self, "ghost",
      List.mem_cons_self, hghost⟩
  obtain ⟨hunknown, _, hread⟩ :=
    only_unknown_members_behind_a_known_one_are_overlooked askedSteps d .unpacked e he
  obtain ⟨hsearched, _⟩ :=
    only_unknown_members_behind_a_known_one_are_overlooked askedSteps d .optimized e he
  obtain ⟨_, first, extent, hfirst, hextent, halign⟩ := hread hoverlooks
  obtain rfl : "int" = first := Option.some.inj hfirst
  have hfour : ∀ e ∈ w.engines, w.answer .unlimited e (.member .unpacked "int") = .ok ⟨4, 4⟩ := by
    decide +kernel
  obtain rfl : ⟨4, 4⟩ = extent := Except.ok.inj ((hfour e he).symm.trans hextent)
  exact ⟨(hunknown ["int"] "ghost" [] rfl hknown hghost).1, halign,
    (hsearched ["int"] "ghost" [] rfl hknown hghost).2 fun ho => ho.1 rfl⟩

end DataLayout
