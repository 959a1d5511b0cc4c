import RasterFallback.Fallback.Rule
import RasterFallback.Proofs.Css.Url
import RasterFallback.Proofs.Text.Encodings
import RasterFallback.Proofs.Text.Trim

/-!
Drawings inside a data url. Markup that is put there in base 64 or percent-encoded comes out as
it was, whether the url is quoted or not.
-/
namespace RasterFallback
open RasterFallback.Text RasterFallback.Css

section Parameters

/-- The text can stand as a parameter. -/
def isParameter (name : List Char) : Bool := !name.isEmpty && name.all isParameterChar

/-- Parameters that begin with this one begin with it, if no parameter character follows it. -/
theorem parameters_cons {name rest : List Char} (h : isParameter name = true)
    (hrest : ∀ c ∈ rest.head?, isParameterChar c = false) :
    parameters (';' :: (name ++ rest)) = (name :: (parameters rest).1, (parameters rest).2) := by
  obtain ⟨hempty, hall⟩ := Bool.and_eq_true_iff.1 h
  have hname : ∀ c ∈ name, isParameterChar c = true := List.all_eq_true.1 hall
  have hne : name.isEmpty = false := by simpa using hempty
  have hstop : rest.takeWhile isParameterChar = [] ∧ rest.dropWhile isParameterChar = rest := by
    cases rest with
    | nil => exact ⟨rfl, rfl⟩
    | cons c rest => simp [hrest c rfl]
  have htake : (name ++ rest).takeWhile isParameterChar = name := by
    rw [List.takeWhile_append_of_pos hname, hstop.1, List.append_nil]
  have hdrop : (name ++ rest).dropWhile isParameterChar = rest := by
    rw [List.dropWhile_append_of_pos hname, hstop.2]
  rw [parameters, htake, hdrop, hne]
  rfl

/-- All that stands between the type and the comma is read as parameters. -/
theorem parameters_append {names : List (List Char)} (h : names.all isParameter = true)
    (payload : List Char) : parameters (names.flatMap (';' :: ·) ++ ',' :: payload) =
      (names, ',' :: payload) := by
  induction names with
  | nil => simp [parameters]
  | cons name names ih =>
    rw [List.all_cons, Bool.and_eq_true] at h
    obtain ⟨hname, hnames⟩ := h
    have hrest : ∀ c ∈ (names.flatMap (';' :: ·) ++ ',' :: payload).head?,
        isParameterChar c = false := by
      intro c hc
      cases names with
      | nil =>
        obtain rfl : ',' = c := by simpa using hc
        decide
      | cons name names =>
        obtain rfl : ';' = c := by simpa using hc
        decide
    rw [List.flatMap_cons, List.append_assoc]
    exact (parameters_cons hname hrest).trans (by rw [ih hnames])

theorem dataUrl?_append {names : List (List Char)} (h : names.all isParameter = true)
    (payload : List Char) :
    dataUrl? (svgDataType ++ names.flatMap (';' :: ·) ++ [','] ++ payload) =
      some (names, payload) := by
  have hparameters := parameters_append h payload
  rw [List.append_assoc, List.append_assoc, dataUrl?, behind?_eq_some.2 rfl]
  simp [hparameters]

end Parameters

section Payload

theorem payloadText?_base64 (markup : String) :
    payloadText? ["base64".toList] (Base64.encode (utf8Bytes markup.toList)) = some markup := by
  have hblank : ∀ c ∈ Base64.encode (utf8Bytes markup.toList), isBlank c = false :=
    Base64.forall_mem_encode (by decide) (by decide) _
  have htrim := trim_eq_self (fun c hc => hblank c (List.mem_of_mem_head? hc))
    (fun c hc => hblank c (List.mem_of_getLast? hc))
  have hbase : ["base64".toList].any isBase64 = true := by decide
  rw [payloadText?, hbase, htrim, Base64.decode?_encode]
  exact ofUtf8?_utf8Bytes markup

theorem payloadText?_percent {names : List (List Char)} (h : names.any isBase64 = false)
    (capital : Bool) (markup : String) :
    payloadText? names (percentEncode capital (utf8Bytes markup.toList)) = some markup := by
  rw [payloadText?, h, percentDecode_percentEncode, ofUtf8?_utf8Bytes]
  rfl

end Payload

/-- A url with this argument shows the markup, whether it is written without quotes or with quotes
of either kind. -/
def Shows (argument markup : String) : Prop :=
  backgroundImage? ("url(" ++ argument ++ ")") = some (.inline markup) ∧
    backgroundImage? ("url(\x22" ++ argument ++ "\x22)") = some (.inline markup) ∧
    backgroundImage? ("url(\x27" ++ argument ++ "\x27)") = some (.inline markup)

/-- A data url with percent-encoded markup. -/
def percentUrl (capital : Bool) (parameters markup : String) : String :=
  "data:image/svg+xml" ++ parameters ++ "," ++
    String.ofList (percentEncode capital (utf8Bytes markup.toList))

/-- What the argument says is what a url with it shows, if its characters stand for themselves. -/
theorem shows_of_dataUrl? {argument markup : String} {names : List (List Char)}
    {payload : List Char} (hchars : ∀ c ∈ argument.toList, standsInUrl c)
    (hurl : dataUrl? argument.toList = some (names, payload))
    (hmarkup : payloadText? names payload = some markup) : Shows argument markup := by
  have himage : imageOfUrls? [argument] = some (.inline markup) := by
    simp [imageOfUrls?, hurl, hmarkup]
  have hself : String.ofList argument.toList = argument := String.ofList_toList
  have hquoted {q : Char} (hq : q = '\x22' ∨ q = '\x27') {value : String}
      (hvalue : value = String.ofList
        ('u' :: 'r' :: 'l' :: '(' :: q :: (argument.toList ++ [q, ')']))) :
      backgroundImage? value = some (.inline markup) := by
    rw [backgroundImage?, hvalue, urlArguments_quoted hq hchars, hself, himage]
  refine ⟨?_, hquoted (.inl rfl) ?_, hquoted (.inr rfl) ?_⟩
  · have hvalue : "url(" ++ argument ++ ")" =
        String.ofList ('u' :: 'r' :: 'l' :: '(' :: (argument.toList ++ [')'])) := by
      apply String.toList_injective
      simp
    rw [backgroundImage?, hvalue, urlArguments_bare hchars, hself, himage]
  · apply String.toList_injective
    simp
  · apply String.toList_injective
    simp

/-- Markup is shown by a data url in which its encoding stands behind the comma. -/
theorem shows_append {front markup : String} (names : List (List Char)) {payload : List Char}
    (hfront : front.toList = svgDataType ++ names.flatMap (';' :: ·) ++ [','])
    (hnames : names.all isParameter = true) (hchars : front.toList.all standsInUrl = true)
    (hpayload : ∀ c ∈ payload, standsInUrl c)
    (hmarkup : payloadText? names payload = some markup) :
    Shows (front ++ String.ofList payload) markup := by
  have htext : (front ++ String.ofList payload).toList = front.toList ++ payload := by
    rw [String.toList_append, String.toList_ofList]
  refine shows_of_dataUrl? (fun c hc => ?_) ?_ hmarkup
  · rw [htext] at hc
    rcases List.mem_append.1 hc with hc | hc
    · exact List.all_eq_true.1 hchars c hc
    · exact hpayload c hc
  · rw [htext, hfront]
    exact dataUrl?_append hnames payload

/-- Markup comes back whole from a data url, whatever characters it holds: from base 64, and from
percent encoding with or without a charset. -/
theorem shows_dataUrl (markup : String) (capital : Bool) :
    Shows (dataUrl markup) markup ∧ Shows (percentUrl capital "" markup) markup ∧
      Shows (percentUrl capital ";charset=utf8" markup) markup := by
  have hbase : ∀ c ∈ Base64.encode (utf8Bytes markup.toList), standsInUrl c :=
    Base64.forall_mem_encode (by decide) (by decide) _
  have hdigit : ∀ capital, ∀ n < 16, standsInUrl (hexDigitIn capital n) = true := by decide
  have hpercent : ∀ c ∈ percentEncode capital (utf8Bytes markup.toList), standsInUrl c :=
    forall_mem_percentEncode (by decide) (hdigit capital) (by decide +kernel) _
  refine ⟨?_, ?_, ?_⟩
  · exact shows_append ["base64".toList] (by decide) (by decide) (by decide) hbase
      (payloadText?_base64 markup)
  · exact shows_append [] (by decide) rfl (by decide) hpercent
      (payloadText?_percent rfl capital markup)
  · exact shows_append ["charset=utf8".toList] (by decide) (by decide) (by decide) hpercent
      (payloadText?_percent (by decide) capital markup)

end RasterFallback
