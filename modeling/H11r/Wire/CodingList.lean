import H11r.Wire.Grammar
import H11r.Lib.Machine
import Mathlib.Data.List.Forall2
import Mathlib.Data.List.Induction

/-!
# The Transfer-Encoding list

`Codings::read` against its grammar, a comma-separated list of

    OWS token *( OWS ";" OWS token OWS "=" OWS ( token / quoted-string ) ) OWS

in which elements may be empty and a registered coding has no parameters. The
scan takes one element a turn. Each scanner has a lemma that reads its grammar
and one that finds it, and from the two the notes of a list are a fold over the
coding names, whatever lines they came on.
-/

namespace H11r

open Lib

/-- `*( OWS ";" OWS token OWS "=" OWS ( token / quoted-string ) )`. -/
inductive Parameters : Bytes → Prop
  | nil : Parameters []
  | cons {before gap name left right word rest : Bytes} (hbefore : IsGap before) (hgap : IsGap gap)
      (hname : IsToken name) (hleft : IsGap left) (hright : IsGap right) (hword : IsWord word)
      (hrest : Parameters rest) :
      Parameters (before ++ semicolon :: (gap ++ (name ++ (left ++ equalsSign ::
        (right ++ (word ++ rest))))))

/-- One coding with its parameters, which a registered coding does not have. -/
def IsCoding (text name : Bytes) : Prop :=
  ∃ before parameters after, text = before ++ (name ++ (parameters ++ after)) ∧ IsGap before ∧
    IsToken name ∧ Parameters parameters ∧ IsGap after ∧
    (Codings.isRegisteredCoding name = true → parameters = [])

/-- A comma-separated list of codings with the given names. -/
inductive CodingList : Bytes → List Bytes → Prop
  | empty {gap : Bytes} (hgap : IsGap gap) : CodingList gap []
  | coding {text name : Bytes} (hcoding : IsCoding text name) : CodingList text [name]
  | skip {gap rest : Bytes} {names : List Bytes} (hgap : IsGap gap) (hrest : CodingList rest names) :
      CodingList (gap ++ comma :: rest) names
  | cons {text name rest : Bytes} {names : List Bytes} (hcoding : IsCoding text name)
      (hrest : CodingList rest names) : CodingList (text ++ comma :: rest) (name :: names)

/-- What may follow an element: nothing, or a comma. -/
def EndsElement (tail : Bytes) : Prop := tail = [] ∨ ∃ rest, tail = comma :: rest

theorem EndsElement.head {tail : Bytes} (h : EndsElement tail) :
    tail.head? = none ∨ tail.head? = some comma := by
  rcases h with rfl | ⟨rest, rfl⟩
  · exact Or.inl rfl
  · exact Or.inr rfl

theorem EndsElement.stops {tail : Bytes} {p : UInt8 → Bool} (h : EndsElement tail)
    (hcomma : p comma = false) : Stops p tail := by
  rcases h with rfl | ⟨rest, rfl⟩
  · exact stops_nil p
  · exact stops_cons rest hcomma

theorem IsGap.append {left right : Bytes} (hleft : IsGap left) (hright : IsGap right) :
    IsGap (left ++ right) := by
  intro byte hmem
  rcases List.mem_append.mp hmem with h | h
  · exact hleft byte h
  · exact hright byte h

/-- Whitespace may stand before parameters. -/
theorem Parameters.gap_append {gap parameters : Bytes} (hgap : IsGap gap)
    (h : Parameters parameters) (hne : parameters ≠ []) : Parameters (gap ++ parameters) := by
  cases h with
  | nil => exact absurd rfl hne
  | cons hbefore hgap' hname hleft hright hword hrest =>
    rw [← List.append_assoc]
    exact .cons (hgap.append hbefore) hgap' hname hleft hright hword hrest

/-- A token cannot go on with parameters. -/
theorem Parameters.stops_token {parameters rest : Bytes} (h : Parameters parameters)
    (hrest : Stops isTokenByte rest) : Stops isTokenByte (parameters ++ rest) := by
  cases h with
  | nil => exact hrest
  | cons hbefore hgap hname hleft hright hword hmore =>
    rw [List.append_assoc]
    exact hbefore.stops_token (stops_cons _ (by decide))

namespace Codings

variable {value text tail : Bytes} {start next : Nat}

/-! ## One parameter -/

/-- The value of a parameter, found. -/
theorem word_sound (h : At value start text) (hgt : (if value[start]? = some quote then
      (parseQuotedString value start).getD start else tokenEnd value start) > start) :
    ∃ word rest, text = word ++ rest ∧ IsWord word ∧ (if value[start]? = some quote then
      (parseQuotedString value start).getD start else tokenEnd value start) = start + word.length := by
  by_cases hquote : value[start]? = some quote
  · rw [if_pos hquote] at hgt ⊢
    rw [h.getElem?] at hquote
    obtain ⟨more, rfl⟩ := List.head?_eq_some_iff.mp hquote
    cases hparse : parseQuotedString value start with
    | none =>
      rw [hparse, Option.getD_none] at hgt
      omega
    | some stop =>
      obtain ⟨word, rest, heq, hword, hstop⟩ := parseQuotedString_some h hparse
      exact ⟨word, rest, heq, Or.inr hword, hstop⟩
  · rw [if_neg hquote] at hgt ⊢
    obtain ⟨word, rest, rfl, hword, _, hcount, _⟩ := countToken_split h
    rw [tokenEnd_at h, hcount] at hgt ⊢
    refine ⟨word, rest, rfl, Or.inl ⟨?_, hword⟩, rfl⟩
    rintro rfl
    exact absurd hgt (Nat.lt_irrefl _)

theorem word_complete {word rest : Bytes} (h : At value start (word ++ rest)) (hword : IsWord word)
    (hstop : Stops isTokenByte rest) : (if value[start]? = some quote then
      (parseQuotedString value start).getD start else tokenEnd value start) = start + word.length := by
  rcases hword with htoken | hquoted
  · obtain ⟨byte, hhead, hbyte⟩ := htoken.head rest
    have hquote : byte ≠ quote := by
      rintro rfl
      revert hbyte
      decide
    rw [h.getElem?, hhead, if_neg (by simpa using hquote), tokenEnd_at h,
      countToken_run h htoken.2 hstop]
  · have hparse := parseQuotedString_quoted h hquoted
    obtain ⟨body, hbody, rfl⟩ := hquoted
    rw [h.getElem?, List.cons_append, List.cons_append, List.head?_cons, if_pos rfl, hparse]
    rfl

theorem IsWord.length_pos {word : Bytes} (h : IsWord word) : 0 < word.length := by
  rcases h with htoken | ⟨body, _, rfl⟩
  · exact List.length_pos_iff.mpr htoken.1
  · simp

theorem IsWord.stops_gap {word : Bytes} (h : IsWord word) (rest : Bytes) :
    Stops isOws (word ++ rest) := by
  rcases h with htoken | ⟨body, _, rfl⟩
  · exact htoken.stops_gap rest
  · exact stops_cons _ (by decide)

theorem readParameter_sound (h : At value start (semicolon :: text))
    (hread : readParameter value start = (true, next)) :
    ∃ gap name left right word more, text = gap ++ (name ++ (left ++ equalsSign ::
        (right ++ (word ++ more)))) ∧ IsGap gap ∧ IsToken name ∧ IsGap left ∧ IsGap right ∧
      IsWord word ∧ ∃ afterWord, At value afterWord more ∧ next = skipOws value afterWord := by
  unfold readParameter at hread
  simp only [Prod.mk.injEq, Bool.and_eq_true, decide_eq_true_eq, beq_iff_eq] at hread
  obtain ⟨⟨⟨hname, hequals⟩, hvalue⟩, hnext⟩ := hread
  obtain ⟨gap, r1, rfl, hgap, hstop1, _, hat1⟩ := skipOws_split h.next
  generalize skipOws value (start + 1) = nameStart at *
  obtain ⟨name, r2, rfl, htoken, _, hcount, hat2⟩ := countToken_split hat1
  have hend : tokenEnd value nameStart = nameStart + name.length := by rw [tokenEnd_at hat1, hcount]
  rw [hend] at hname hequals hvalue hnext
  obtain ⟨left, r3, rfl, hleft, hstop3, hskip3, hat3⟩ := skipOws_split hat2
  -- An empty name would leave the scan where it was.
  have hne : name ≠ [] := by
    rintro rfl
    have hskip := skipOws_stop hat1 hstop1
    rw [List.length_nil, Nat.add_zero] at hname
    omega
  generalize skipOws value (nameStart + name.length) = afterName at *
  rw [hat3.getElem?] at hequals
  obtain ⟨r4, rfl⟩ := List.head?_eq_some_iff.mp hequals
  obtain ⟨right, r5, rfl, hright, _, _, hat5⟩ := skipOws_split hat3.next
  generalize skipOws value (afterName + 1) = parameter at *
  obtain ⟨word, more, rfl, hword, hend⟩ := word_sound hat5 hvalue
  rw [hend] at hnext
  exact ⟨gap, name, left, right, word, more, rfl, hgap, ⟨hne, htoken⟩, hleft, hright, hword,
    _, hat5.skip, hnext.symm⟩

theorem readParameter_complete {gap name left right word more : Bytes}
    (h : At value start (semicolon :: (gap ++ (name ++ (left ++ equalsSign ::
      (right ++ (word ++ more))))))) (hgap : IsGap gap) (hname : IsToken name) (hleft : IsGap left)
    (hright : IsGap right) (hword : IsWord word) (hstop : Stops isTokenByte more) :
    ∃ afterWord, At value afterWord more ∧
      readParameter value start = (true, skipOws value afterWord) := by
  have hskip1 := skipOws_run h.next hgap (hname.stops_gap _)
  have hat1 := h.next.skip
  have hstopName : Stops isTokenByte (left ++ equalsSign :: (right ++ (word ++ more))) :=
    hleft.stops_token (stops_cons _ (by decide))
  have hend := tokenEnd_at hat1
  rw [countToken_run hat1 hname.2 hstopName] at hend
  have hat2 := hat1.skip
  have hskip3 := skipOws_run hat2 hleft (stops_cons _ (by decide))
  have hat3 := hat2.skip
  have hskip5 := skipOws_run hat3.next hright (IsWord.stops_gap hword more)
  have hat5 := hat3.next.skip
  have hvalue := word_complete hat5 hword hstop
  refine ⟨_, hat5.skip, ?_⟩
  have hnamePos := List.length_pos_iff.mpr hname.1
  have hwordPos := IsWord.length_pos hword
  unfold readParameter
  simp only [hskip1, hend, hskip3, hskip5, hvalue, hat3.getElem?, List.head?_cons]
  simp only [beq_self_eq_true, Bool.and_true, Prod.mk.injEq, and_true, Bool.and_eq_true,
    decide_eq_true_eq]
  omega

/-! ## The parameters of a coding -/

theorem readParameters_step (hsemi : value[start]? = some semicolon)
    (hread : readParameter value start = (true, next)) :
    readParameters value start = readParameters value next := by
  rw [readParameters, dif_pos hsemi]
  split
  next next' hread' =>
    rw [hread] at hread'
    cases hread'
    rfl
  next next' hread' =>
    rw [hread] at hread'
    cases hread'

theorem readParameters_sound (h : At value start text) (hstop : Stops isOws text)
    (hread : readParameters value start = (true, next)) :
    ∃ parameters after tail, text = parameters ++ (after ++ tail) ∧ Parameters parameters ∧
      IsGap after ∧ At value next tail ∧
      (parameters ≠ [] → value[start]? = some semicolon) := by
  induction start using readParameters.induct value generalizing text with
  | case1 start hsemi next' hp ih =>
    rw [readParameters_step hsemi hp] at hread
    have hhead := h.getElem?
    rw [hsemi] at hhead
    obtain ⟨text, rfl⟩ := List.head?_eq_some_iff.mp hhead.symm
    obtain ⟨gap, name, left, right, word, more, rfl, hgap, hname, hleft, hright, hword, afterWord,
      hmore, rfl⟩ := readParameter_sound h hp
    obtain ⟨gap', more', rfl, hgap', hstop', _, hat'⟩ := skipOws_split hmore
    obtain ⟨parameters, after, tail, rfl, hparameters, hafter, htail, _⟩ := ih hat' hstop' hread
    -- Whitespace after the value belongs to the next parameter, or ends the element.
    by_cases hnone : parameters = []
    · subst hnone
      exact ⟨_, gap' ++ after, tail, by simp,
        .cons isGap_nil hgap hname hleft hright hword .nil, hgap'.append hafter, htail,
        fun _ => hsemi⟩
    · exact ⟨_, after, tail, by simp,
        .cons isGap_nil hgap hname hleft hright hword (hparameters.gap_append hgap' hnone), hafter,
        htail, fun _ => hsemi⟩
  | case2 start hsemi next' hp =>
    rw [readParameters, dif_pos hsemi] at hread
    split at hread
    next next'' hp' =>
      rw [hp] at hp'
      cases hp'
    next => cases hread
  | case3 start hsemi =>
    rw [readParameters, dif_neg hsemi] at hread
    cases hread
    exact ⟨[], [], text, rfl, .nil, isGap_nil, h, fun hne => absurd rfl hne⟩

theorem readParameters_complete {parameters after : Bytes} (hparameters : Parameters parameters)
    (h : At value start (parameters ++ (after ++ tail))) (hafter : IsGap after)
    (htail : EndsElement tail) :
    ∃ next, At value next tail ∧ readParameters value (skipOws value start) = (true, next) := by
  induction hparameters generalizing start with
  | nil =>
    rw [List.nil_append] at h
    have hskip := skipOws_run h hafter (htail.stops (by decide))
    refine ⟨start + after.length, h.skip, ?_⟩
    have hsemi : value[start + after.length]? ≠ some semicolon := by
      rw [(h.skip).getElem?]
      rcases htail.head with hhead | hhead
      · simp [hhead]
      · rw [hhead]
        decide
    rw [hskip, readParameters, dif_neg hsemi]
  | @cons before gap name left right word rest hbefore hgap hname hleft hright hword hrest ih =>
    have hat : At value start (before ++ semicolon :: (gap ++ (name ++ (left ++ equalsSign ::
        (right ++ (word ++ (rest ++ (after ++ tail)))))))) := by
      simpa using h
    have hskip := skipOws_run hat hbefore (stops_cons _ (by decide))
    have hstop : Stops isTokenByte (rest ++ (after ++ tail)) :=
      hrest.stops_token (hafter.stops_token (htail.stops (by decide)))
    obtain ⟨afterWord, hmore, hread⟩ :=
      readParameter_complete hat.skip hgap hname hleft hright hword hstop
    have hsemi : value[start + before.length]? = some semicolon := by
      rw [hat.skip.getElem?]
      rfl
    rw [hskip, readParameters_step hsemi hread]
    exact ih hmore

/-! ## One element -/

/-- The coding that `Codings::read` looks for. -/
def isChunked (name : Bytes) : Bool := eqIgnoreAsciiCase name (ascii "chunked")

theorem slice_run {name rest : Bytes} (h : At value start (name ++ rest)) :
    Span.slice ⟨start, start + name.length⟩ value = name := by
  unfold Span.slice
  rw [h.drop, Nat.add_sub_cancel_left, List.take_left]

theorem readElement_sound {chunked : Bool} (h : At value start text)
    (hread : readElement value start = (true, chunked, next)) :
    ∃ name parameters after tail, text = name ++ (parameters ++ (after ++ tail)) ∧ IsToken name ∧
      Parameters parameters ∧ IsGap after ∧ (isRegisteredCoding name = true → parameters = []) ∧
      chunked = isChunked name ∧ At value next tail ∧ EndsElement tail := by
  have hends := (readElement_next hread).2
  obtain ⟨name, r1, rfl, hname, _, hcount, hat1⟩ := countToken_split h
  have hend := tokenEnd_at h
  rw [hcount] at hend
  unfold readElement at hread
  simp only [hend, slice_run h, Prod.mk.injEq, Bool.and_eq_true, Bool.not_eq_true', Bool.and_eq_false_iff] at hread
  obtain ⟨⟨⟨hvalid, hregistered⟩, _⟩, rfl, hnext⟩ := hread
  by_cases hlt : start + name.length > start
  · rw [if_pos hlt] at hvalid hnext
    have hparameters : readParameters value (skipOws value (start + name.length)) = (true, next) :=
      Prod.ext hvalid hnext
    obtain ⟨gap, r2, rfl, hgap, hstop, _, hat2⟩ := skipOws_split hat1
    obtain ⟨parameters, after, tail, rfl, hparams, hafter, htail, hsemi⟩ :=
      readParameters_sound hat2 hstop hparameters
    have htoken : IsToken name := ⟨by rintro rfl; simp at hlt, hname⟩
    have hendsTail : EndsElement tail := by
      rw [htail.getElem?] at hends
      rcases hends with hnone | hcomma
      · exact Or.inl (List.head?_eq_none_iff.mp hnone)
      · exact Or.inr (List.head?_eq_some_iff.mp hcomma)
    by_cases hnone : parameters = []
    · subst hnone
      exact ⟨name, [], gap ++ after, tail, by simp, htoken, .nil, hgap.append hafter, fun _ => rfl,
        rfl, htail, hendsTail⟩
    · refine ⟨name, gap ++ parameters, after, tail, by simp, htoken, hparams.gap_append hgap hnone,
        hafter, fun hreg => ?_, rfl, htail, hendsTail⟩
      rw [hsemi hnone, hreg] at hregistered
      simp [hlt] at hregistered
  · rw [if_neg hlt] at hvalid
    cases hvalid

theorem readElement_complete {name parameters after : Bytes}
    (h : At value start (name ++ (parameters ++ (after ++ tail)))) (hname : IsToken name)
    (hparameters : Parameters parameters) (hafter : IsGap after)
    (hregistered : isRegisteredCoding name = true → parameters = []) (htail : EndsElement tail) :
    ∃ next, At value next tail ∧ readElement value start = (true, isChunked name, next) := by
  have hstop : Stops isTokenByte (parameters ++ (after ++ tail)) :=
    hparameters.stops_token (hafter.stops_token (htail.stops (by decide)))
  have hend := tokenEnd_at h
  rw [countToken_run h hname.2 hstop] at hend
  have hat1 := h.skip
  obtain ⟨next, hnext, hread⟩ := readParameters_complete hparameters hat1 hafter htail
  have hpos := List.length_pos_iff.mpr hname.1
  refine ⟨next, hnext, ?_⟩
  -- A registered coding has no parameters, so no semicolon follows it.
  have hplain : (value[skipOws value (start + name.length)]? == some semicolon &&
      isRegisteredCoding name) = false := by
    rw [Bool.and_eq_false_iff]
    by_cases hreg : isRegisteredCoding name = true
    · left
      rw [hregistered hreg, List.nil_append] at hat1
      rw [skipOws_run hat1 hafter (htail.stops (by decide)), hat1.skip.getElem?]
      rcases htail.head with hhead | hhead <;> rw [hhead] <;> decide
    · right
      simpa using hreg
  have hends : (value[next]? == none || value[next]? == some comma) = true := by
    rw [hnext.getElem?]
    rcases htail.head with hhead | hhead <;> rw [hhead] <;> decide
  have hlt : start + name.length > start := by omega
  unfold readElement
  simp only [hend, slice_run h, if_pos hlt, hread, hends, decide_eq_true hlt, Bool.and_true, hplain, Bool.not_false]
  rfl

/-! ## One line -/

/-- One turn of the loop of `Codings::read`, or the end of it. -/
def readTurn (value : Bytes) (state : Codings × Nat) : Codings ⊕ (Codings × Nat) :=
  let element := skipOws value state.2
  match value[element]? with
  | none => .inl { state.1 with empty := true }
  | some byte =>
    if byte = comma then .inr ({ state.1 with empty := true }, element + 1)
    else
      match readElement value element with
      | (false, chunked, _) => .inl (state.1.note false chunked)
      | (true, chunked, next) =>
        if value[next]? = none then .inl (state.1.note true chunked)
        else .inr (state.1.note true chunked, next + 1)

theorem readFrom_turn (value : Bytes) (codings : Codings) (start : Nat) :
    readFrom value codings start =
      (readTurn value (codings, start)).elim id fun state => readFrom value state.1 state.2 := by
  rw [readFrom]
  unfold readTurn
  dsimp only
  split
  next hnone =>
    rw [hnone]
    rfl
  next byte hbyte =>
    rw [hbyte]
    dsimp only
    split
    · rfl
    · split
      next chunked next' helement =>
        rw [helement]
        rfl
      next chunked next' helement =>
        rw [helement]
        dsimp only
        split <;> rfl

/-- A turn that goes on moves the scan forward. -/
theorem readTurn_forward {value : Bytes} {state state' : Codings × Nat}
    (h : readTurn value state = .inr state') :
    value.length - state'.2 < value.length - state.2 := by
  have hge := skipOws_ge value state.2
  unfold readTurn at h
  dsimp only at h
  split at h
  · cases h
  next byte hbyte =>
    have hlt : skipOws value state.2 < value.length := (List.getElem?_eq_some_iff.mp hbyte).1
    split at h
    · cases h
      omega
    · split at h
      · cases h
      next chunked next' helement =>
        have hnext := (readElement_next helement).1
        split at h
        · cases h
        · cases h
          omega

/-- The loop ends on every value. -/
theorem read_loop (codings : Codings) (value : Bytes) :
    loop (readTurn value) (value.length + 1) (codings, 0) = some (codings.read value) := by
  refine loop_ends (fun state : Codings × Nat => readFrom value state.1 state.2)
    (fun state => value.length - state.2) ?_ ?_ (Nat.lt_succ_of_le (Nat.sub_le ..))
  · rintro ⟨codings, start⟩ result hturn
    rw [readFrom_turn, hturn]
    rfl
  · rintro ⟨codings, start⟩ state hturn
    refine ⟨readTurn_forward hturn, ?_⟩
    rw [readFrom_turn, hturn]
    rfl

/-- The notes of well-formed codings with the given names. -/
def noteAll (codings : Codings) (names : List Bytes) : Codings :=
  names.foldl (fun codings name => codings.note true (isChunked name)) codings

/-- Two readings that differ at most in whether an empty element was seen. -/
def Agree (left right : Codings) : Prop := { left with empty := right.empty } = right

theorem Agree.refl (codings : Codings) : Agree codings codings := rfl

theorem Agree.note {left right : Codings} (h : Agree left right) (valid chunked : Bool) :
    Agree (left.note valid chunked) (right.note valid chunked) := by
  unfold Agree at h ⊢
  rw [← h]
  rfl

theorem Agree.noteAll {left right : Codings} (h : Agree left right) (names : List Bytes) :
    Agree (left.noteAll names) (right.noteAll names) := by
  induction names generalizing left right with
  | nil => exact h
  | cons name names ih => exact ih (h.note true (isChunked name))

theorem Agree.trans {left middle right : Codings} (h : Agree left middle) (h' : Agree middle right) :
    Agree left right := by
  unfold Agree at h h' ⊢
  rw [← h', ← h]

theorem Agree.seen (codings : Codings) : Agree { codings with empty := true } codings := rfl

/-- The turn on an empty element. -/
theorem readTurn_skip (codings : Codings) {gap rest : Bytes}
    (h : At value start (gap ++ comma :: rest)) (hgap : IsGap gap) :
    ∃ next, At value next rest ∧
      readTurn value (codings, start) = .inr ({ codings with empty := true }, next) := by
  have hskip := skipOws_run h hgap (stops_cons rest (by decide))
  refine ⟨_, h.skip.next, ?_⟩
  unfold readTurn
  simp only [hskip, h.skip.getElem?, List.head?_cons, if_true]

/-- The turn on a coding. -/
theorem readTurn_coding (codings : Codings) {coding name : Bytes}
    (h : At value start (coding ++ tail)) (hcoding : IsCoding coding name) (htail : EndsElement tail) :
    ∃ next, At value next tail ∧ readTurn value (codings, start) =
      if value[next]? = none then .inl (codings.note true (isChunked name))
      else .inr (codings.note true (isChunked name), next + 1) := by
  obtain ⟨before, parameters, after, rfl, hbefore, hname, hparameters, hafter, hregistered⟩ := hcoding
  have hat : At value start (before ++ (name ++ (parameters ++ (after ++ tail)))) := by simpa using h
  have hskip := skipOws_run hat hbefore (hname.stops_gap _)
  obtain ⟨byte, hhead, hbyte⟩ := hname.head (parameters ++ (after ++ tail))
  have hcomma : byte ≠ comma := by
    rintro rfl
    revert hbyte
    decide
  obtain ⟨next, hnext, hread⟩ :=
    readElement_complete hat.skip hname hparameters hafter hregistered htail
  refine ⟨next, hnext, ?_⟩
  unfold readTurn
  simp only [hskip, hat.skip.getElem?, hhead, hcomma, if_false, hread]

/-- A well-formed list is noted name by name. -/
theorem readFrom_list {names : List Bytes} (hlist : CodingList text names) {codings : Codings}
    (h : At value start text) : Agree (readFrom value codings start) (codings.noteAll names) := by
  induction hlist generalizing codings start with
  | @empty gap hgap =>
    have hat : At value start (gap ++ []) := by simpa using h
    have hskip := skipOws_run hat hgap (stops_nil _)
    have hturn : readTurn value (codings, start) = .inl { codings with empty := true } := by
      unfold readTurn
      simp only [hskip, hat.skip.getElem?, List.head?_nil]
    rw [readFrom_turn, hturn]
    exact Agree.seen codings
  | @coding text name hcoding =>
    have hat : At value start (text ++ []) := by simpa using h
    obtain ⟨next, hnext, hturn⟩ := readTurn_coding codings hat hcoding (Or.inl rfl)
    rw [readFrom_turn, hturn, hnext.getElem?]
    exact Agree.refl _
  | @skip gap rest names hgap hrest ih =>
    obtain ⟨next, hnext, hturn⟩ := readTurn_skip codings h hgap
    rw [readFrom_turn, hturn]
    exact (ih hnext).trans ((Agree.seen codings).noteAll names)
  | @cons text name rest names hcoding hrest ih =>
    obtain ⟨next, hnext, hturn⟩ :=
      readTurn_coding codings h hcoding (Or.inr ⟨rest, rfl⟩)
    rw [readFrom_turn, hturn, hnext.getElem?, List.head?_cons, if_neg (by simp)]
    exact ih hnext.next

/-- A reading that is not malformed has read a list. -/
theorem readFrom_sound {codings : Codings} (h : At value start text)
    (hread : (readFrom value codings start).malformed = false) :
    codings.malformed = false ∧ ∃ names, CodingList text names := by
  induction hsize : value.length - start using Nat.strongRecOn generalizing codings start text with
  | ind size ih =>
  subst hsize
  have hturn := readFrom_turn value codings start
  have hforward : ∀ state, readTurn value (codings, start) = .inr state →
      value.length - state.2 < value.length - start := fun _ => readTurn_forward
  obtain ⟨gap, rest, rfl, hgap, hstop, hskip, hat⟩ := skipOws_split h
  unfold readTurn at hturn hforward
  simp only [hat.getElem?] at hturn hforward
  cases rest with
  | nil =>
    rw [hturn] at hread
    exact ⟨hread, [], by simpa using CodingList.empty hgap⟩
  | cons byte rest =>
    simp only [List.head?_cons] at hturn hforward
    by_cases hcomma : byte = comma
    · subst hcomma
      simp only [if_true] at hturn hforward
      rw [hturn] at hread
      obtain ⟨hcodings, names, hnames⟩ := ih _ (hforward _ rfl) hat.next hread rfl
      exact ⟨hcodings, names, .skip hgap hnames⟩
    · simp only [hcomma, if_false] at hturn hforward
      split at hturn
      next chunked next helement =>
        rw [hturn] at hread
        cases hmalformed : codings.malformed <;> simp [note, hmalformed] at hread
      next chunked next helement =>
        obtain ⟨name, parameters, after, tail, heq, hname, hparameters, hafter, hregistered, _,
          hnext, hends⟩ := readElement_sound hat helement
        have hcoding : IsCoding (gap ++ (name ++ (parameters ++ after))) name :=
          ⟨gap, parameters, after, rfl, hgap, hname, hparameters, hafter, hregistered⟩
        rw [helement] at hforward
        simp only [hnext.getElem?] at hturn hforward
        rcases hends with rfl | ⟨tail, rfl⟩
        · rw [hturn] at hread
          refine ⟨by simpa [note] using hread, [name], ?_⟩
          have heq' : gap ++ byte :: rest = gap ++ (name ++ (parameters ++ after)) := by
            rw [heq, List.append_nil]
          rw [heq']
          exact .coding hcoding
        · simp only [List.head?_cons, reduceCtorEq, if_false] at hturn hforward
          rw [hturn] at hread
          obtain ⟨hcodings, names, hnames⟩ := ih _ (hforward _ rfl) hnext.next hread rfl
          refine ⟨by simpa [note] using hcodings, name :: names, ?_⟩
          have heq' : gap ++ byte :: rest =
              gap ++ (name ++ (parameters ++ after)) ++ comma :: tail := by
            rw [heq]
            simp
          rw [heq']
          exact .cons hcoding hnames

/-! ## All lines -/

/-- The notes after the lines of a field. -/
def readLines (lines : List Bytes) : Codings := lines.foldl read new

/-- Every line is a list, and `names` are the coding names of them all. -/
def CodingLines (lines names : List Bytes) : Prop :=
  ∃ lists, List.Forall₂ CodingList lines lists ∧ names = lists.flatten

theorem noteAll_append (codings : Codings) (names more : List Bytes) :
    codings.noteAll (names ++ more) = (codings.noteAll names).noteAll more :=
  List.foldl_append

theorem readFrom_agree {left right : Codings} (h : Agree left right) (value : Bytes)
    {names : List Bytes} (hlist : CodingList value names) :
    Agree (left.read value) (right.noteAll names) :=
  (readFrom_list hlist (At.start value)).trans (h.noteAll names)

theorem foldl_read_list {lines : List Bytes} {lists : List (List Bytes)}
    (h : List.Forall₂ CodingList lines lists) {left right : Codings} (hagree : Agree left right) :
    Agree (lines.foldl read left) (right.noteAll lists.flatten) := by
  induction h generalizing left right with
  | nil => exact hagree
  | @cons line names lines lists hlist _ ih =>
    rw [List.foldl_cons, List.flatten_cons, noteAll_append]
    exact ih (readFrom_agree hagree line hlist)

theorem foldl_read_sound {lines : List Bytes} {codings : Codings}
    (h : (lines.foldl read codings).malformed = false) :
    codings.malformed = false ∧ ∀ line ∈ lines, ∃ names, CodingList line names := by
  induction lines generalizing codings with
  | nil => exact ⟨h, by simp⟩
  | cons line lines ih =>
    obtain ⟨hread, hrest⟩ := ih h
    obtain ⟨hcodings, hline⟩ := readFrom_sound (At.start line) hread
    refine ⟨hcodings, fun other hmem => ?_⟩
    rcases List.mem_cons.mp hmem with rfl | hmem
    · exact hline
    · exact hrest other hmem

theorem codingLines_of_forall {lines : List Bytes}
    (h : ∀ line ∈ lines, ∃ names, CodingList line names) : ∃ names, CodingLines lines names := by
  induction lines with
  | nil => exact ⟨[], [], .nil, rfl⟩
  | cons line lines ih =>
    obtain ⟨names, hnames⟩ := h line (List.mem_cons_self ..)
    obtain ⟨_, lists, hlists, rfl⟩ := ih fun other hmem => h other (List.mem_cons_of_mem _ hmem)
    exact ⟨_, names :: lists, .cons hnames hlists, rfl⟩

/-- What the notes say about a list of well-formed names. -/
structure Classifies (codings : Codings) (names : List Bytes) : Prop where
  malformed : codings.malformed = false
  any : codings.any = !names.isEmpty
  last : codings.lastChunked = names.getLast?.any isChunked
  chunkedBefore : codings.chunkedBeforeLast = names.dropLast.any isChunked
  otherBefore : codings.otherBeforeLast = names.dropLast.any (!isChunked ·)

theorem Classifies.note {codings : Codings} {names : List Bytes} (h : Classifies codings names)
    (name : Bytes) : Classifies (codings.note true (isChunked name)) (names ++ [name]) := by
  refine ⟨?_, ?_, ?_, ?_, ?_⟩
  · simp [Codings.note, h.malformed]
  · simp [Codings.note]
  · simp [Codings.note]
  all_goals
    -- The name that was last so far is one before the last now.
    rw [List.dropLast_concat]
    simp only [Codings.note, h.any, h.last, h.chunkedBefore, h.otherBefore]
    rcases List.eq_nil_or_concat names with rfl | ⟨names, last, rfl⟩
    · rfl
    · have hne : (names ++ [last]).isEmpty = false := by cases names <;> rfl
      simp [hne]

theorem classifies_noteAll (names : List Bytes) : Classifies (new.noteAll names) names := by
  induction names using List.reverseRecOn with
  | nil => exact ⟨rfl, rfl, rfl, rfl, rfl⟩
  | append_singleton names name ih =>
    rw [noteAll_append]
    exact ih.note name

theorem Classifies.congr {left right : Codings} {names : List Bytes} (h : Agree left right)
    (hright : Classifies right names) : Classifies left names := by
  unfold Agree at h
  rw [← h] at hright
  exact ⟨hright.malformed, hright.any, hright.last, hright.chunkedBefore, hright.otherBefore⟩

theorem classifies_lines {lines names : List Bytes} (h : CodingLines lines names) :
    Classifies (readLines lines) names := by
  obtain ⟨lists, hlists, rfl⟩ := h
  exact (classifies_noteAll _).congr (foldl_read_list hlists (Agree.refl new))

/-- The reader accepts the lines of its grammar and no others. -/
theorem malformed_iff (lines : List Bytes) : (readLines lines).malformed = false ↔
    ∀ line ∈ lines, ∃ names, CodingList line names := by
  constructor
  · exact fun h => (foldl_read_sound h).2
  · intro h
    obtain ⟨names, hnames⟩ := codingLines_of_forall h
    exact (classifies_lines hnames).malformed

/-- The decision the notes of a list lead to, in terms of its names. -/
theorem Classifies.framing {codings : Codings} {names : List Bytes} (h : Classifies codings names)
    (response : Bool) : codings.framing response =
      match names.getLast? with
      | none => .error (remoteError "invalid Transfer-Encoding field" (some 400))
      | some last =>
        if response && !isChunked last then .ok .closeDelimited
        else if !isChunked last || names.dropLast.any isChunked then
          .error (remoteError "chunked must be the final transfer coding" (some 400))
        else if names.dropLast.any (!isChunked ·) && !response then
          .error (remoteError "only Transfer-Encoding: chunked is supported" (some 501))
        else .ok .chunked := by
  unfold Codings.framing
  rw [h.malformed, h.any, h.last, h.chunkedBefore, h.otherBefore]
  rcases List.eq_nil_or_concat names with rfl | ⟨names, last, rfl⟩
  · rfl
  · have hne : (names ++ [last]).isEmpty = false := by cases names <;> rfl
    simp [hne]

/-- The last of the codings is `chunked`. -/
def EndsChunked (names : List Bytes) : Prop := ∃ last, names.getLast? = some last ∧ isChunked last = true

/-- No coding before the last is `chunked`. -/
def NoneEarlier (names : List Bytes) : Prop := ∀ name ∈ names.dropLast, isChunked name = false

end Codings

open Codings in
/-- The Transfer-Encoding reader accepts exactly its list grammar, over any
number of lines, and tells the codings apart as their names say. -/
theorem transfer_encoding_is_its_grammar (lines : List Bytes) :
    ((readLines lines).malformed = false ↔ ∀ line ∈ lines, ∃ names, CodingList line names) ∧
    (∀ names, CodingLines lines names →
      ((readLines lines).any = true ↔ 0 < names.length) ∧
      ((readLines lines).lastChunked = true ↔ EndsChunked names) ∧
      ((readLines lines).chunkedBeforeLast = true ↔ ∃ name ∈ names.dropLast, isChunked name = true) ∧
      ((readLines lines).otherBeforeLast = true ↔ ∃ name ∈ names.dropLast, isChunked name = false) ∧
      -- A request.
      ((readLines lines).framing false = .ok .chunked ↔ ∃ name, names = [name] ∧ isChunked name = true) ∧
      ((∃ message, (readLines lines).framing false = .error (remoteError message (some 501))) ↔
        1 < names.length ∧ EndsChunked names ∧ NoneEarlier names) ∧
      ((readLines lines).framing false = .ok .chunked ∨
        ∃ message status, (readLines lines).framing false = .error (remoteError message (some status)) ∧
          (status = 501 ∨ status = 400)) ∧
      -- A response.
      ((readLines lines).framing true = .ok .closeDelimited ↔ 0 < names.length ∧ ¬EndsChunked names) ∧
      ((readLines lines).framing true = .ok .chunked ↔
        0 < names.length ∧ EndsChunked names ∧ NoneEarlier names) ∧
      ((readLines lines).framing true = .ok .closeDelimited ∨
        (readLines lines).framing true = .ok .chunked ∨
        ∃ error, (readLines lines).framing true = .error error)) ∧
    (∀ codings value, Lib.loop (readTurn value) (value.length + 1) (codings, 0) =
      some (codings.read value)) := by
  refine ⟨malformed_iff lines, fun names hnames => ?_, read_loop⟩
  have h := classifies_lines hnames
  rw [h.framing, h.framing, h.any, h.last, h.chunkedBefore, h.otherBefore]
  unfold EndsChunked NoneEarlier
  rcases List.eq_nil_or_concat names with rfl | ⟨earlier, last, rfl⟩
  · simp [remoteError]
  · rw [List.concat_eq_append, List.getLast?_concat, List.dropLast_concat]
    have hne : (earlier ++ [last]).isEmpty = false := by cases earlier <;> rfl
    have hsingle : ∀ name, earlier ++ [last] = [name] → earlier = [] ∧ last = name := by
      intro name heq
      have hlength := congrArg List.length heq
      rw [List.length_append, List.length_singleton, List.length_singleton] at hlength
      have hnil : earlier = [] := List.length_eq_zero_iff.mp (by omega)
      subst hnil
      exact ⟨rfl, List.singleton_inj.mp heq⟩
    cases hlast : isChunked last with
    | false =>
      suffices hother : ∀ name, earlier ++ [last] = [name] → isChunked name = false by
        simpa [hne, hlast, remoteError] using hother
      intro name heq
      rw [← (hsingle name heq).2]
      exact hlast
    | true =>
      by_cases hearlier : earlier.any isChunked = true
      · -- `chunked` twice.
        obtain ⟨name, hmem, hname⟩ := List.any_eq_true.mp hearlier
        have hseveral : ∀ other, earlier ++ [last] = [other] → isChunked other = false := by
          intro other heq
          rw [(hsingle other heq).1] at hmem
          cases hmem
        have hexists : ∃ name ∈ earlier, isChunked name = true := ⟨name, hmem, hname⟩
        simpa [hne, hlast, hearlier, remoteError, hexists] using hseveral
      · cases earlier with
        | nil => simp [hlast]
        | cons first earlier =>
          rw [List.any_eq_true, not_exists] at hearlier
          have hnone : ∀ name ∈ first :: earlier, isChunked name = false := fun name hmem =>
            Bool.eq_false_iff.mpr fun hname => hearlier name ⟨hmem, hname⟩
          have hchunked : (first :: earlier).any isChunked = false := by
            rw [List.any_eq_false]
            exact fun name hmem => Bool.not_eq_true _ ▸ hnone name hmem
          have hother : (first :: earlier).any (!isChunked ·) = true := by
            rw [List.any_eq_true]
            exact ⟨first, List.mem_cons_self .., by rw [hnone first (List.mem_cons_self ..)]; rfl⟩
          have hfirst := hnone first (List.mem_cons_self ..)
          have hearlier : ∀ name ∈ earlier, isChunked name = false := fun name hmem =>
            hnone name (List.mem_cons_of_mem _ hmem)
          simpa [hlast, hchunked, hother, remoteError, hfirst] using hearlier

end H11r
