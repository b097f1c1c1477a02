import H11r.Wire.Scan

/-!
# The Connection field a response is sent with

`set_connection_option` takes every Connection line out of a section and puts
one in their place, which lists the options that are not about persistence and
then the one asked for. Reading the new line gives that list back
(`elements_intercalate`), the other fields are as they were, and a section that
was valid to send still is.
-/

namespace H11r

/-! ## Lists of elements -/

/-- Without quoting a list is split at every comma. -/
theorem splitElements_plain (value : Bytes) :
    splitElements false false false value = value.splitOnP (· == comma) := by
  induction value with
  | nil => rfl
  | cons byte rest ih =>
    rw [List.splitOnP_cons_eq_if_modifyHead, splitElements]
    by_cases hcomma : byte == comma
    · simp only [hcomma, Bool.not_false, Bool.and_true, if_true]
      rw [ih]
    · simp only [Bool.not_eq_true] at hcomma
      simp only [hcomma, Bool.false_and, Bool.false_eq_true, if_false, Bool.and_false, ih]
      cases hrest : rest.splitOnP (· == comma) with
      | nil => exact absurd hrest (List.splitOnP_ne_nil _ _)
      | cons element elements => rfl

theorem elements_plain (value : Bytes) :
    elements value false = (value.splitOnP (· == comma)).map trimOws := by
  rw [elements, splitElements_plain]

/-- No piece of a split has the byte it was split on. -/
theorem not_mem_splitOnP {separator : UInt8} {value piece : Bytes}
    (h : piece ∈ value.splitOnP (· == separator)) : separator ∉ piece ∧ ∀ byte ∈ piece, byte ∈ value := by
  induction value generalizing piece with
  | nil =>
    rw [List.splitOnP_nil, List.mem_singleton] at h
    subst h
    simp
  | cons first rest ih =>
    rw [List.splitOnP_cons_eq_if_modifyHead] at h
    split at h
    next hfirst =>
      rcases List.mem_cons.mp h with rfl | h
      · simp
      · exact ⟨(ih h).1, fun byte hbyte => List.mem_cons_of_mem _ ((ih h).2 byte hbyte)⟩
    next hfirst =>
      obtain ⟨head, tail, hrest⟩ := List.exists_cons_of_ne_nil (List.splitOnP_ne_nil (· == separator) rest)
      rw [hrest, List.modifyHead_cons] at h
      rcases List.mem_cons.mp h with rfl | h
      · have hhead := ih (hrest ▸ List.mem_cons_self ..)
        refine ⟨?_, ?_⟩
        · rw [List.mem_cons, not_or]
          refine ⟨?_, hhead.1⟩
          rintro rfl
          simp at hfirst
        · intro byte hbyte
          rcases List.mem_cons.mp hbyte with rfl | hbyte
          · exact List.mem_cons_self ..
          · exact List.mem_cons_of_mem _ (hhead.2 byte hbyte)
      · have htail := ih (hrest ▸ List.mem_cons_of_mem _ h)
        exact ⟨htail.1, fun byte hbyte => List.mem_cons_of_mem _ (htail.2 byte hbyte)⟩

theorem dropWhile_head {p : UInt8 → Bool} (value : Bytes) (byte : UInt8)
    (h : (value.dropWhile p).head? = some byte) : p byte = false := by
  induction value with
  | nil => cases h
  | cons first rest ih =>
    rw [List.dropWhile_cons] at h
    split at h
    · exact ih h
    next hfirst =>
      cases h
      simpa using hfirst

theorem dropWhile_eq_self {p : UInt8 → Bool} {value : Bytes}
    (h : ∀ byte, value.head? = some byte → p byte = false) : value.dropWhile p = value := by
  cases value with
  | nil => rfl
  | cons first rest => exact List.dropWhile_cons_of_neg (by simp [h first rfl])

/-- What is left after trimming has no whitespace at either end. -/
theorem trimOws_ends (value : Bytes) :
    (∀ byte, (trimOws value).head? = some byte → isOws byte = false) ∧
      ∀ byte, (trimOws value).getLast? = some byte → isOws byte = false := by
  unfold trimOws
  refine ⟨fun byte h => ?_, fun byte h => ?_⟩
  · -- The first byte survives the cut at the end, or nothing does.
    rw [List.head?_reverse] at h
    have hlast : (value.dropWhile isOws).reverse.getLast? = some byte := by
      have hsplit := List.takeWhile_append_dropWhile (p := isOws) (l := (value.dropWhile isOws).reverse)
      rw [← hsplit, List.getLast?_append, h]
      rfl
    rw [List.getLast?_reverse] at hlast
    exact dropWhile_head value byte hlast
  · rw [List.getLast?_reverse] at h
    exact dropWhile_head _ byte h

theorem trimOws_eq_self {value : Bytes}
    (hhead : ∀ byte, value.head? = some byte → isOws byte = false)
    (hlast : ∀ byte, value.getLast? = some byte → isOws byte = false) : trimOws value = value := by
  unfold trimOws
  rw [dropWhile_eq_self hhead, dropWhile_eq_self, List.reverse_reverse]
  intro byte h
  rw [List.head?_reverse] at h
  exact hlast byte h

theorem trimOws_idem (value : Bytes) : trimOws (trimOws value) = trimOws value :=
  trimOws_eq_self (trimOws_ends value).1 (trimOws_ends value).2

theorem trimOws_subset (value : Bytes) : ∀ byte ∈ trimOws value, byte ∈ value := by
  intro byte h
  unfold trimOws at h
  rw [List.mem_reverse] at h
  have h1 := (List.dropWhile_sublist _).subset h
  rw [List.mem_reverse] at h1
  exact (List.dropWhile_sublist _).subset h1

/-- An element stands between two commas and has no whitespace around it. -/
theorem mem_elements {value element : Bytes} (h : element ∈ elements value false) :
    comma ∉ element ∧ trimOws element = element ∧ ∀ byte ∈ element, byte ∈ value := by
  rw [elements_plain] at h
  obtain ⟨piece, hpiece, rfl⟩ := List.mem_map.mp h
  have hsplit := not_mem_splitOnP hpiece
  exact ⟨fun hmem => hsplit.1 (trimOws_subset piece _ hmem), trimOws_idem piece,
    fun byte hbyte => hsplit.2 byte (trimOws_subset piece byte hbyte)⟩

theorem elements_sp (value : Bytes) : elements (sp :: value) false = elements value false := by
  rw [elements_plain, elements_plain, List.splitOnP_cons_eq_if_modifyHead, if_neg (by decide)]
  obtain ⟨head, tail, hsplit⟩ := List.exists_cons_of_ne_nil (List.splitOnP_ne_nil (· == comma) value)
  rw [hsplit, List.modifyHead_cons, List.map_cons, List.map_cons]
  congr 1

/-- A list that is written with `", "` is read back. -/
theorem elements_intercalate {options : List Bytes} (hne : options ≠ [])
    (h : ∀ option ∈ options, comma ∉ option ∧ trimOws option = option) :
    elements ((ascii ", ").intercalate options) false = options := by
  induction options with
  | nil => exact absurd rfl hne
  | cons option options ih =>
    have hoption := h option (List.mem_cons_self ..)
    have hnone : ∀ byte ∈ option, (byte == comma) = false := by
      intro byte hbyte
      rw [beq_eq_false_iff_ne]
      rintro rfl
      exact hoption.1 hbyte
    cases options with
    | nil =>
      rw [List.intercalate_singleton, elements_plain, List.splitOnP_eq_singleton hnone,
        List.map_singleton, hoption.2]
    | cons next options =>
      have hrest := ih (by simp) fun other hmem => h other (List.mem_cons_of_mem _ hmem)
      have hjoin : (ascii ", ").intercalate (option :: next :: options) =
          option ++ comma :: sp :: (ascii ", ").intercalate (next :: options) := by
        rw [List.intercalate_cons_cons]
        exact List.append_assoc _ _ _
      rw [hjoin, elements_plain, List.splitOnP_append_cons _ _ (by decide),
        List.splitOnP_eq_singleton hnone, List.map_append, List.map_singleton, hoption.2,
        ← elements_plain, elements_sp, hrest]
      rfl

/-! ## Replacing the persistence option -/

theorem mem_otherConnectionOptions {headers : Headers} {value : Bytes}
    (h : value ∈ otherConnectionOptions headers) :
    value ≠ [] ∧ eqIgnoreAsciiCase value (ascii "close") = false ∧
      eqIgnoreAsciiCase value (ascii "keep-alive") = false ∧
      ∃ line ∈ headers.getAll (ascii "connection"), value ∈ elements line false := by
  unfold otherConnectionOptions at h
  rw [List.mem_filter, List.mem_flatMap] at h
  obtain ⟨hline, hvalue⟩ := h
  simp only [Bool.and_eq_true, Bool.not_eq_true', List.isEmpty_eq_false_iff] at hvalue
  exact ⟨hvalue.1.1, hvalue.1.2, hvalue.2, hline⟩

/-- The value of the one Connection line that is written. -/
def connectionValue (headers : Headers) (option : Bytes) : Bytes :=
  (ascii ", ").intercalate (otherConnectionOptions headers ++ [option])

theorem setConnectionOption_iter (headers : Headers) (option : Bytes) :
    (setConnectionOption headers option).iter =
      (headers.iter.filter fun field => !eqIgnoreAsciiCase field.1 (ascii "connection")) ++
        [(ascii "Connection", connectionValue headers option)] := by
  unfold setConnectionOption
  rw [Headers.iter_push, Headers.iter_retain]
  rfl

theorem elements_connectionValue (headers : Headers) {option : Bytes} (hcomma : comma ∉ option)
    (htrim : trimOws option = option) :
    elements (connectionValue headers option) false = otherConnectionOptions headers ++ [option] := by
  refine elements_intercalate (by simp) fun other hmem => ?_
  rcases List.mem_append.mp hmem with hother | hoption
  · obtain ⟨_, _, _, line, _, helement⟩ := mem_otherConnectionOptions hother
    exact ⟨(mem_elements helement).1, (mem_elements helement).2.1⟩
  · rw [List.mem_singleton] at hoption
    subst hoption
    exact ⟨hcomma, htrim⟩

theorem valuesOf_filter_connection (fields : List (Bytes × Bytes)) (name : Bytes) :
    valuesOf (fields.filter fun field => !eqIgnoreAsciiCase field.1 (ascii "connection")) name =
      if eqIgnoreAsciiCase (ascii "connection") name then [] else valuesOf fields name := by
  unfold valuesOf
  rw [List.filter_filter]
  split
  next hname =>
    rw [List.map_eq_nil_iff, List.filter_eq_nil_iff]
    intro field _ h
    rw [Bool.and_eq_true] at h
    have hsame : eqIgnoreAsciiCase field.1 (ascii "connection") = true := by
      unfold eqIgnoreAsciiCase at *
      rw [beq_iff_eq] at hname h ⊢
      rw [h.1, hname]
    rw [hsame] at h
    simp at h
  next hname =>
    congr 1
    refine List.filter_congr fun field _ => ?_
    cases hfield : eqIgnoreAsciiCase field.1 name with
    | false => rfl
    | true =>
      have hother : eqIgnoreAsciiCase field.1 (ascii "connection") = false := by
        rw [← Bool.not_eq_true]
        intro hconnection
        rw [eqIgnoreAsciiCase_left hconnection] at hfield
        exact hname hfield
      rw [hother]
      rfl

/-- The fields with other names keep their values. -/
theorem setConnectionOption_getAll (headers : Headers) (option name : Bytes) :
    (setConnectionOption headers option).getAll name =
      if eqIgnoreAsciiCase (ascii "connection") name then [connectionValue headers option]
      else headers.getAll name := by
  have hcase : eqIgnoreAsciiCase (ascii "Connection") name = eqIgnoreAsciiCase (ascii "connection") name :=
    eqIgnoreAsciiCase_left (by decide)
  rw [getAll_eq, setConnectionOption_iter, valuesOf_append, valuesOf_filter_connection, valuesOf_cons,
    getAll_eq]
  show _ ++ (if eqIgnoreAsciiCase (ascii "Connection") name = true then _ else _) = _
  rw [hcase]
  split
  · rfl
  · exact List.append_nil _

/-- The options of the Connection lines in order, empty elements and all. -/
def connectionOptions (headers : Headers) : List Bytes :=
  (headers.getAll (ascii "connection")).flatMap (elements · false)

/-- The two options that `set_connection_option` replaces. -/
def isPersistenceOption (value : Bytes) : Bool :=
  eqIgnoreAsciiCase value (ascii "close") || eqIgnoreAsciiCase value (ascii "keep-alive")

theorem hasToken_connection (headers : Headers) (option : Bytes) :
    hasToken headers (ascii "connection") option =
      (connectionOptions headers).any (eqIgnoreAsciiCase · option) := rfl

theorem otherConnectionOptions_eq (headers : Headers) : otherConnectionOptions headers =
    (connectionOptions headers).filter fun value => !value.isEmpty && !isPersistenceOption value := by
  unfold otherConnectionOptions connectionOptions isPersistenceOption
  refine List.filter_congr fun value _ => ?_
  rw [Bool.not_or, Bool.and_assoc]

/-- The new line is read as the options that were kept, and the one asked for. -/
theorem connectionOptions_rewritten (headers : Headers) {option : Bytes} (hcomma : comma ∉ option)
    (htrim : trimOws option = option) :
    connectionOptions (setConnectionOption headers option) =
      otherConnectionOptions headers ++ [option] := by
  unfold connectionOptions
  rw [setConnectionOption_getAll, if_pos (by decide), List.flatMap_singleton,
    elements_connectionValue headers hcomma htrim]

/-- A replaced option is gone, unless it is the one asked for. -/
theorem setConnectionOption_replaces (headers : Headers) {option replaced : Bytes}
    (hcomma : comma ∉ option) (htrim : trimOws option = option)
    (hreplaced : isPersistenceOption replaced = true) :
    hasToken (setConnectionOption headers option) (ascii "connection") replaced =
      eqIgnoreAsciiCase option replaced := by
  rw [hasToken_connection, connectionOptions_rewritten headers hcomma htrim, List.any_append,
    List.any_cons, List.any_nil, Bool.or_false]
  have hnone : (otherConnectionOptions headers).any (eqIgnoreAsciiCase · replaced) = false := by
    rw [List.any_eq_false]
    intro other hmem hsame
    have hother := mem_otherConnectionOptions hmem
    unfold isPersistenceOption at hreplaced
    rw [← eqIgnoreAsciiCase_left hsame, ← eqIgnoreAsciiCase_left hsame, hother.2.1,
      hother.2.2.1] at hreplaced
    cases hreplaced
  rw [hnone, Bool.false_or]

theorem setConnectionOption_close (headers : Headers) {option : Bytes} (hcomma : comma ∉ option)
    (htrim : trimOws option = option) :
    hasToken (setConnectionOption headers option) (ascii "connection") (ascii "close") =
      eqIgnoreAsciiCase option (ascii "close") :=
  setConnectionOption_replaces headers hcomma htrim (by decide)

/-- An option that is not about persistence is there afterwards if it was there
before. -/
theorem setConnectionOption_keeps (headers : Headers) {option kept : Bytes}
    (hcomma : comma ∉ option) (htrim : trimOws option = option) (hne : kept ≠ [])
    (hkept : isPersistenceOption kept = false) (hoption : isPersistenceOption option = true) :
    hasToken (setConnectionOption headers option) (ascii "connection") kept =
      hasToken headers (ascii "connection") kept := by
  have hlast : eqIgnoreAsciiCase option kept = false := by
    rw [← Bool.not_eq_true]
    intro hsame
    unfold isPersistenceOption at hkept hoption
    rw [eqIgnoreAsciiCase_left hsame, eqIgnoreAsciiCase_left hsame, hkept] at hoption
    cases hoption
  rw [hasToken_connection, connectionOptions_rewritten headers hcomma htrim, List.any_append,
    List.any_cons, List.any_nil, Bool.or_false, hlast, Bool.or_false, hasToken_connection,
    otherConnectionOptions_eq, List.any_filter]
  congr 1
  funext value
  -- An option that matches `kept` is not empty and not about persistence either.
  cases hsame : eqIgnoreAsciiCase value kept with
  | false => rw [Bool.and_false]
  | true =>
    have hpersistence : isPersistenceOption value = false := by
      unfold isPersistenceOption at hkept ⊢
      rw [eqIgnoreAsciiCase_left hsame, eqIgnoreAsciiCase_left hsame, hkept]
    have hvalue : value.isEmpty = false := by
      rw [List.isEmpty_eq_false_iff]
      rintro rfl
      unfold eqIgnoreAsciiCase at hsame
      exact hne (by simpa using hsame)
    rw [hpersistence, hvalue]
    rfl

/-- No element of the line that is written is empty. -/
theorem connectionOptions_nonempty (headers : Headers) {option : Bytes} (hcomma : comma ∉ option)
    (htrim : trimOws option = option) (hne : option ≠ []) :
    [] ∉ connectionOptions (setConnectionOption headers option) := by
  rw [connectionOptions_rewritten headers hcomma htrim, List.mem_append, List.mem_singleton]
  rintro (hother | hlast)
  · exact (mem_otherConnectionOptions hother).1 rfl
  · exact hne hlast.symm

/-- The options that are not about persistence are kept in their order, each as
often as it was there. -/
theorem connectionOptions_kept (headers : Headers) {option : Bytes} (hcomma : comma ∉ option)
    (htrim : trimOws option = option) (hoption : isPersistenceOption option = true) :
    (connectionOptions (setConnectionOption headers option)).filter (!isPersistenceOption ·) =
      otherConnectionOptions headers := by
  rw [connectionOptions_rewritten headers hcomma htrim, List.filter_append,
    List.filter_cons_of_neg (by simp [hoption]), List.filter_nil, List.append_nil,
    List.filter_eq_self]
  intro other hmem
  rw [otherConnectionOptions_eq, List.mem_filter, Bool.and_eq_true] at hmem
  exact hmem.2.2

/-- The replacement done twice is the replacement done once. -/
theorem setConnectionOption_twice (headers : Headers) {option : Bytes} (hcomma : comma ∉ option)
    (htrim : trimOws option = option) (hoption : isPersistenceOption option = true) :
    (setConnectionOption (setConnectionOption headers option) option).iter =
      (setConnectionOption headers option).iter := by
  have hothers : otherConnectionOptions (setConnectionOption headers option) =
      otherConnectionOptions headers := by
    rw [otherConnectionOptions_eq, ← List.filter_filter,
      connectionOptions_kept headers hcomma htrim hoption, List.filter_eq_self]
    intro other hmem
    rw [Bool.not_eq_true', List.isEmpty_eq_false_iff]
    exact (mem_otherConnectionOptions hmem).1
  have hname : (!eqIgnoreAsciiCase (ascii "Connection") (ascii "connection")) = false := by decide
  rw [setConnectionOption_iter, setConnectionOption_iter headers, List.filter_append,
    List.filter_filter, List.filter_cons_of_neg (by rw [hname]; simp), List.filter_nil,
    List.append_nil]
  unfold connectionValue
  rw [hothers]
  simp only [Bool.and_self]

/-- The Connection line that is written has no empty element. -/
theorem connectionValue_nonempty (headers : Headers) {option : Bytes} (hcomma : comma ∉ option)
    (htrim : trimOws option = option) (hne : option ≠ []) :
    Fields.noteEmpty (connectionValue headers option) false = false := by
  unfold Fields.noteEmpty
  rw [elements_connectionValue headers hcomma htrim, Bool.and_eq_false_iff]
  right
  rw [List.any_eq_false]
  intro other hmem
  rw [List.mem_append, List.mem_singleton] at hmem
  rw [Bool.not_eq_true, List.isEmpty_eq_false_iff]
  rcases hmem with hother | rfl
  · exact (mem_otherConnectionOptions hother).1
  · exact hne

/-! ## What is written is valid -/

theorem isLineValueByte_vchar : ∀ byte, isLineValueByte byte = true → isOws byte = false →
    isFieldVchar byte = true :=
  forall_byte (by decide +kernel)

/-- A trimmed text of line bytes is a valid value. -/
theorem validValue_of_trimmed {value : Bytes} (hall : value.all isLineValueByte = true)
    (htrim : trimOws value = value) : validValue value = true := by
  have hends := trimOws_ends value
  rw [htrim] at hends
  unfold validValue
  rw [Bool.or_eq_true, Bool.and_eq_true, Bool.and_eq_true]
  cases value with
  | nil => exact Or.inl rfl
  | cons first rest =>
    refine Or.inr ⟨⟨?_, ?_⟩, hall⟩
    · show isFieldVchar first = true
      exact isLineValueByte_vchar _ (List.all_eq_true.mp hall _ (List.mem_cons_self ..))
        (hends.1 first rfl)
    · obtain ⟨last, hlast⟩ : ∃ last, (first :: rest).getLast? = some last :=
        ⟨_, List.getLast?_eq_some_getLast (by simp)⟩
      rw [hlast]
      show isFieldVchar last = true
      exact isLineValueByte_vchar _ (List.all_eq_true.mp hall _ (List.mem_of_getLast? hlast))
        (hends.2 last hlast)

theorem intercalate_bytes {options : List Bytes} {byte : UInt8}
    (h : byte ∈ (ascii ", ").intercalate options) :
    byte = comma ∨ byte = sp ∨ ∃ option ∈ options, byte ∈ option := by
  induction options with
  | nil => cases h
  | cons option options ih =>
    cases options with
    | nil =>
      rw [List.intercalate_singleton] at h
      exact Or.inr (Or.inr ⟨option, List.mem_cons_self .., h⟩)
    | cons next options =>
      rw [List.intercalate_cons_cons, List.mem_append, List.mem_append] at h
      rcases h with (h | h) | h
      · exact Or.inr (Or.inr ⟨option, List.mem_cons_self .., h⟩)
      · rcases List.mem_cons.mp h with rfl | h
        · exact Or.inl rfl
        · exact Or.inr (Or.inl (List.mem_singleton.mp h))
      · rcases ih h with h | h | ⟨other, hmem, h⟩
        · exact Or.inl h
        · exact Or.inr (Or.inl h)
        · exact Or.inr (Or.inr ⟨other, List.mem_cons_of_mem _ hmem, h⟩)

theorem intercalate_head {options : List Bytes} {first : Bytes} (hne : first ≠ []) :
    ((ascii ", ").intercalate (first :: options)).head? = first.head? := by
  obtain ⟨byte, rest, rfl⟩ := List.exists_cons_of_ne_nil hne
  cases options with
  | nil => rw [List.intercalate_singleton]
  | cons next options =>
    rw [List.intercalate_cons_cons]
    rfl

theorem intercalate_last {options : List Bytes} {last : Bytes} (hne : last ≠ []) :
    ((ascii ", ").intercalate (options ++ [last])).getLast? = last.getLast? := by
  induction options with
  | nil => rw [List.nil_append, List.intercalate_singleton]
  | cons option options ih =>
    obtain ⟨next, more, hnext⟩ := List.exists_cons_of_ne_nil (l := options ++ [last]) (by simp)
    rw [List.cons_append, hnext, List.intercalate_cons_cons, ← hnext, List.getLast?_append, ih,
      List.getLast?_eq_some_getLast hne]
    rfl

theorem setConnectionOption_valid {headers : Headers} {option : Bytes}
    (hvalid : ∀ field ∈ headers.iter, validName field.1 = true ∧ validValue field.2 = true)
    (hne : option ≠ []) (hall : option.all isLineValueByte = true) (htrim : trimOws option = option) :
    ∀ field ∈ (setConnectionOption headers option).iter,
      validName field.1 = true ∧ validValue field.2 = true := by
  intro field hmem
  rw [setConnectionOption_iter, List.mem_append, List.mem_filter, List.mem_singleton] at hmem
  rcases hmem with ⟨hold, _⟩ | rfl
  · exact hvalid field hold
  · refine ⟨show validName (ascii "Connection") = true by decide, ?_⟩
    -- Every listed option is a trimmed, non-empty piece of a valid value.
    have hoptions : ∀ other ∈ otherConnectionOptions headers ++ [option],
        other ≠ [] ∧ trimOws other = other ∧ other.all isLineValueByte = true := by
      intro other hother
      rcases List.mem_append.mp hother with hother | hother
      · obtain ⟨hother, _, _, line, hline, helement⟩ := mem_otherConnectionOptions hother
        refine ⟨hother, (mem_elements helement).2.1, ?_⟩
        obtain ⟨source, hsource, rfl⟩ := List.mem_map.mp hline
        have hvalue := validValue_all (hvalid source (List.mem_filter.mp hsource).1).2
        rw [List.all_eq_true] at hvalue ⊢
        exact fun byte hbyte => hvalue byte ((mem_elements helement).2.2 byte hbyte)
      · rw [List.mem_singleton] at hother
        subst hother
        exact ⟨hne, htrim, hall⟩
    refine validValue_of_trimmed ?_ (trimOws_eq_self ?_ ?_)
    · rw [List.all_eq_true]
      intro byte hbyte
      rcases intercalate_bytes hbyte with rfl | rfl | ⟨other, hother, hbyte⟩
      · decide
      · decide
      · exact List.all_eq_true.mp (hoptions other hother).2.2 byte hbyte
    · intro byte hbyte
      obtain ⟨first, more, hfirst⟩ :=
        List.exists_cons_of_ne_nil (l := otherConnectionOptions headers ++ [option]) (by simp)
      have hmem := hoptions first (by rw [hfirst]; exact List.mem_cons_self ..)
      unfold connectionValue at hbyte
      rw [hfirst, intercalate_head hmem.1] at hbyte
      have hends := (trimOws_ends first).1 byte
      rw [hmem.2.1] at hends
      exact hends hbyte
    · intro byte hbyte
      unfold connectionValue at hbyte
      rw [intercalate_last hne] at hbyte
      have hends := (trimOws_ends option).2 byte
      rw [htrim] at hends
      exact hends hbyte

/-- Rewriting the Connection field changes what it says about persistence and
nothing else. -/
theorem rewriting_changes_persistence_only {headers : Headers} {option : Bytes}
    (hvalid : headers.isValid = true)
    (hoption : option = ascii "close" ∨ option = ascii "keep-alive") :
    let rewritten := setConnectionOption headers option
    rewritten.isValid = true ∧
    -- The fields: those of other names as they were, then one Connection field.
    (∃ value, rewritten.iter =
      (headers.iter.filter fun field => !eqIgnoreAsciiCase field.1 (ascii "connection")) ++
        [(ascii "Connection", value)]) ∧
    -- What the scan of them finds.
    (Fields.scan rewritten).close = decide (option = ascii "close") ∧
    (Fields.scan rewritten).keepAlive = decide (option = ascii "keep-alive") ∧
    (Fields.scan rewritten).upgrade = (Fields.scan headers).upgrade ∧
    (Fields.scan rewritten).connectionTe = (Fields.scan headers).connectionTe ∧
    (∀ other, other ≠ [] → isPersistenceOption other = false →
      hasToken rewritten (ascii "connection") other = hasToken headers (ascii "connection") other) ∧
    (connectionOptions rewritten).filter (!isPersistenceOption ·) =
      (connectionOptions headers).filter (fun value => !value.isEmpty && !isPersistenceOption value) ∧
    [] ∉ connectionOptions rewritten ∧
    (setConnectionOption rewritten option).iter = rewritten.iter := by
  have hcomma : comma ∉ option := by rcases hoption with rfl | rfl <;> decide
  have htrim : trimOws option = option := by rcases hoption with rfl | rfl <;> decide
  have hne : option ≠ [] := by rcases hoption with rfl | rfl <;> decide
  have hall : option.all isLineValueByte = true := by rcases hoption with rfl | rfl <;> decide
  have hpersistence : isPersistenceOption option = true := by
    rcases hoption with rfl | rfl <;> decide
  have hkeeps : ∀ kept, kept ≠ [] → isPersistenceOption kept = false →
      hasToken (setConnectionOption headers option) (ascii "connection") kept =
        hasToken headers (ascii "connection") kept := fun _ hkept hother =>
    setConnectionOption_keeps headers hcomma htrim hkept hother hpersistence
  rw [Headers.isValid_iff] at hvalid
  refine ⟨(Headers.isValid_iff _).mpr (setConnectionOption_valid hvalid hne hall htrim),
    ⟨_, setConnectionOption_iter headers option⟩, ?_, ?_, ?_, ?_, hkeeps, ?_,
    connectionOptions_nonempty headers hcomma htrim hne,
    setConnectionOption_twice headers hcomma htrim hpersistence⟩
  · rw [Fields.scan_close_eq_hasToken, setConnectionOption_replaces headers hcomma htrim (by decide)]
    rcases hoption with rfl | rfl <;> decide
  · rw [Fields.scan_keepAlive_eq_hasToken,
      setConnectionOption_replaces headers hcomma htrim (by decide)]
    rcases hoption with rfl | rfl <;> decide
  · rw [Fields.scan_upgrade_eq_hasToken, Fields.scan_upgrade_eq_hasToken]
    exact hkeeps _ (by decide) (by decide)
  · rw [Fields.scan_connectionTe_eq_hasToken, Fields.scan_connectionTe_eq_hasToken]
    exact hkeeps _ (by decide) (by decide)
  · rw [connectionOptions_kept headers hcomma htrim hpersistence, otherConnectionOptions_eq]

/-- A list with an empty element, both persistence options and two others. -/
theorem rewriting_a_mixed_list :
    let headers := (Headers.new.push (ascii "connection") (ascii "Upgrade,, Keep-Alive")).push
      (ascii "Connection") (ascii "close, TE")
    headers.isValid = true ∧
      [] ∉ connectionOptions (setConnectionOption headers (ascii "close")) :=
  ⟨by decide, (rewriting_changes_persistence_only (by decide) (Or.inl rfl)).2.2.2.2.2.2.2.2.1⟩

end H11r
