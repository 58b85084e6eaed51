import SwaggerClient.Api.OfDocument
import SwaggerClient.Client.Endpoint
import SwaggerClient.Proofs.Client.TemplateLiteral
import SwaggerClient.Proofs.Code.Fragment
import SwaggerClient.Proofs.Name.Binding
import SwaggerClient.Proofs.UrlTemplate

/-!
# The URL of a request

A client function writes the URL of its request as a template literal.  The literal stands for
the URL exactly when no character of its text means anything in a template literal: no
backtick, backslash or line end, and no dollar sign before a brace that begins no placeholder
with a name.
-/

namespace SwaggerClient

open TemplateLiteral

namespace UrlTemplate

/-! ## What a template stands for -/

/-- What a piece stands for when the placeholders have values: an empty placeholder is text. -/
def Piece.filled (values : String → List Nat) : Piece → List Nat
  | .char c => codeUnits c.toNat
  | .placeholder [] => units ['{', '}']
  | .placeholder name => values (String.ofList name)

/-- A URL template with the values of its placeholders. -/
def filled (values : String → List Nat) (url : String) : List Nat :=
  (pieces url).flatMap (Piece.filled values)

/-- The local variables of the placeholders of a URL template, with their values. -/
def environment (values : String → List Nat) (url : String) : String → Option (List Nat) :=
  fun x => ((placeholders url).find? fun name => bindingName name == x).map values

/-- Whether the text of a piece begins with a brace. -/
def Piece.opensBrace : Piece → Bool
  | .char c => c == '{'
  | .placeholder name => name.isEmpty

/-- The characters that mean something wherever they stand in a template literal. -/
def specialChars : List Char :=
  ['\x60', '\\', '\n', '\r']

/-- Whether a piece means nothing else in a template literal than in the template, before the
pieces behind it. -/
def Piece.isPlain (behind : List Piece) : Piece → Bool
  | .char c =>
    !specialChars.contains c && !(c == '$' && behind.head?.any Piece.opensBrace)
  | .placeholder _ => true

theorem not_mem_specialChars_iff {c : Char} :
    c ∉ specialChars ↔ c ≠ '\x60' ∧ c ≠ '\\' ∧ c ≠ '\n' ∧ c ≠ '\r' := by
  simp [specialChars]

theorem isPlain_char_iff {behind : List Piece} {c : Char} :
    (Piece.char c).isPlain behind ↔
      c ∉ specialChars ∧ (c = '$' → ¬ behind.head?.any Piece.opensBrace) := by
  simp [Piece.isPlain, imp_iff_not_or]

/-- Whether all pieces of a template are plain. -/
def plain : List Piece → Bool
  | [] => true
  | p :: ps => p.isPlain ps && plain ps

variable {ps : List Piece} {url : String}

/-- The text of pieces begins with a brace when the first piece does. -/
theorem head?_substituted (ps : List Piece) (rest : List Char) :
    (ps.flatMap Piece.substituted ++ '\x60' :: rest).head? = some '{' ↔
      ps.head?.any Piece.opensBrace := by
  rcases ps with _ | ⟨p, ps⟩
  · simp
  · rcases p with c | (_ | ⟨c, cs⟩) <;> simp [Piece.substituted, Piece.opensBrace]

/-! ## Plain templates -/

section Reading

variable {env : String → Option (List Nat)} {values : String → List Nat} {p : Piece}

theorem value_text (env : String → Option (List Nat)) (cs : List Char) {c : Char}
    (hc : c ∉ specialChars) (hd : c = '$' → cs.head? ≠ some '{') :
    value env 0 (c :: cs) =
      (value env 0 cs).map fun (vs, rest) => (codeUnits c.toNat ++ vs, rest) := by
  obtain ⟨hback, hslash, -, hreturn⟩ := not_mem_specialChars_iff.1 hc
  exact value_char hback hslash hreturn hd

/-- A plain piece is read as it is meant. -/
theorem value_piece (hp : p.isPlain ps)
    (henv : ∀ name, p.name? = some name → env (bindingName name) = some (values name))
    (rest : List Char) :
    value env 0 ((p :: ps).flatMap Piece.substituted ++ '\x60' :: rest) =
      (value env 0 (ps.flatMap Piece.substituted ++ '\x60' :: rest)).map
        fun (vs, rest) => (p.filled values ++ vs, rest) := by
  rw [List.flatMap_cons, List.append_assoc]
  generalize htail : ps.flatMap Piece.substituted ++ '\x60' :: rest = tail
  rcases p with c | (_ | ⟨c, cs⟩)
  · obtain ⟨hc, hdollar⟩ := isPlain_char_iff.1 hp
    refine value_text env tail hc fun hd => ?_
    rw [← htail, ne_eq, head?_substituted]
    exact hdollar hd
  · have hopen := value_text env ('}' :: tail) (c := '{') (by decide) (by simp)
    have hclose := value_text env tail (c := '}') (by decide) (by simp)
    simp [Piece.substituted, Piece.filled, hopen, hclose, Function.comp_def]
  · have hus : env (String.ofList (bindingName (String.ofList (c :: cs))).toList) =
        some (Piece.filled values (.placeholder (c :: cs))) := by
      rw [String.ofList_toList]
      exact henv _ rfl
    have hname := isIdentifier_bindingName (String.ofList (c :: cs))
    simpa only [Piece.substituted, List.append_assoc, List.singleton_append] using
      value_substitution hname hus tail

/-- A plain template is read as it is meant. -/
theorem value_substituted (hplain : plain ps)
    (henv : ∀ p ∈ ps, ∀ name, p.name? = some name →
      env (bindingName name) = some (values name))
    (rest : List Char) :
    value env 0 (ps.flatMap Piece.substituted ++ '\x60' :: rest) =
      some (ps.flatMap (Piece.filled values), rest) := by
  induction ps with
  | nil => simp
  | cons p ps ih =>
    simp only [plain, Bool.and_eq_true] at hplain
    obtain ⟨hp, hps⟩ := List.forall_mem_cons.1 henv
    rw [value_piece hplain.1 hp, ih hplain.2 hps]
    rfl

/-- A brace behind a dollar sign begins no substitution when nothing closes it, or nothing
stands before its closing brace. -/
theorem substitution_eq_none {text : List Char}
    (h : '}' ∉ text) (rest : List Char) :
    substitution env (text ++ '\x60' :: rest) = none := by
  refine Option.eq_none_iff_forall_ne_some.2 fun r hr => ?_
  obtain ⟨us, n⟩ := r
  obtain ⟨name, rest', heq, hname, -, -⟩ := substitution_eq_some hr
  have hback : '\x60' ∉ name := fun hmem =>
    absurd (isIdentifierChar_of_isIdentifierChars hname _ hmem) (by decide)
  rcases List.append_eq_append_iff.1 heq with ⟨mid, rfl, hmid⟩ | ⟨mid, rfl, hmid⟩
  · rcases mid with _ | ⟨c, mid⟩
    · simp at hmid
    · obtain ⟨rfl, -⟩ := List.cons.inj hmid
      exact hback (by simp)
  · rcases mid with _ | ⟨c, mid⟩
    · simp at hmid
    · obtain ⟨rfl, -⟩ := List.cons.inj hmid
      exact h (by simp)

/-- A dollar sign before a brace that begins no placeholder with a name cannot be read. -/
theorem value_dollar (env : String → Option (List Nat)) (hbrace : ps.head?.any Piece.opensBrace)
    (hunclosed : ∀ rs, ps = .char '{' :: rs →
      ∃ text : List Char, '}' ∉ text ∧ rs = text.map .char) (rest : List Char) :
    value env 0 ('$' :: (ps.flatMap Piece.substituted ++ '\x60' :: rest)) = none := by
  rcases ps with _ | ⟨p, ps⟩
  · simp at hbrace
  · refine value_of_none (by decide) ?_
    rcases p with c | (_ | ⟨c, cs⟩)
    · obtain rfl : c = '{' := by simpa [Piece.opensBrace] using hbrace
      obtain ⟨text, htext, rfl⟩ := hunclosed ps rfl
      have hsame : (text.map Piece.char).flatMap Piece.substituted = text := by
        simp [List.flatMap_map, Piece.substituted]
      rw [List.flatMap_cons, hsame]
      exact substitution_eq_none htext rest
    · rfl
    · simp [Piece.opensBrace] at hbrace

/-- A template whose text has no backtick, backslash or line end is plain when it is read. -/
theorem plain_of_value (rest : List Char)
    (htext : ∀ c ∈ specialChars, c ∉ ps.flatMap Piece.substituted)
    (hunclosed : ∀ qs rs, ps = qs ++ .char '{' :: rs →
      ∃ text : List Char, '}' ∉ text ∧ rs = text.map .char)
    (henv : ∀ p ∈ ps, ∀ name, p.name? = some name →
      env (bindingName name) = some (values name))
    (h : (value env 0 (ps.flatMap Piece.substituted ++ '\x60' :: rest)).isSome) : plain ps := by
  induction ps with
  | nil => rfl
  | cons p ps ih =>
    have hplain : p.isPlain ps := by
      cases p with
      | placeholder name => rfl
      | char c =>
        have hc : c ∉ specialChars := fun hc =>
          htext c hc (by simp [Piece.substituted])
        refine isPlain_char_iff.2 ⟨hc, ?_⟩
        rintro rfl hbrace
        have hnone := value_dollar env hbrace
          (fun rs heq => hunclosed [.char '$'] rs (by rw [heq]; rfl)) rest
        simp [Piece.substituted, hnone] at h
    obtain ⟨hp, hps⟩ := List.forall_mem_cons.1 henv
    rw [value_piece hplain hp, Option.isSome_map] at h
    simp only [plain, hplain, Bool.true_and]
    refine ih (fun c hc hmem => htext c hc (List.mem_append_right _ hmem)) ?_ hps h
    intro qs rs heq
    exact hunclosed (p :: qs) rs (by rw [heq, List.cons_append])

end Reading

/-- A plain template has no line feed: a binding has none. -/
theorem newline_not_mem_of_plain (h : plain ps) : '\n' ∉ ps.flatMap Piece.substituted := by
  induction ps with
  | nil => simp
  | cons p ps ih =>
    simp only [plain, Bool.and_eq_true] at h
    rw [List.flatMap_cons, List.mem_append, not_or]
    refine ⟨?_, ih h.2⟩
    rcases p with c | (_ | ⟨c, cs⟩)
    · have hnewline := (not_mem_specialChars_iff.1 (isPlain_char_iff.1 h.1).1).2.2.1
      simpa [Piece.substituted] using hnewline.symm
    · decide
    · have hname := isIdentifier_bindingName (String.ofList (c :: cs))
      have hbinding : '\n' ∉ (bindingName (String.ofList (c :: cs))).toList := fun hmem =>
        absurd (isIdentifierChar_of_isIdentifierChars hname _ hmem) (by decide)
      simp only [Piece.substituted, List.mem_append, not_or]
      exact ⟨⟨by decide, hbinding⟩, by decide⟩

/-! ## Templates written over several lines -/

/-- Values that show what was written for them. -/
def written (name : String) : List Nat :=
  units (['$', '{'] ++ (bindingName name).toList ++ ['}'])

theorem written_congr {p q : String} (h : bindingName p = bindingName q) :
    written p = written q := by
  simp [written, h]

theorem filled_written (ps : List Piece) :
    ps.flatMap (Piece.filled written) = units (ps.flatMap Piece.substituted) := by
  induction ps with
  | nil => rfl
  | cons p ps ih =>
    rw [List.flatMap_cons, List.flatMap_cons, ih, units_append]
    congr 1
    rcases p with c | (_ | ⟨c, cs⟩)
    · simp [Piece.filled, Piece.substituted]
    · rfl
    · rfl

/-- The local variable of a placeholder has its value, unless one of the same name has another
one. -/
theorem environment_of_mem {values : String → List Nat}
    (h : ∀ p ∈ placeholders url, ∀ q ∈ placeholders url,
      bindingName p = bindingName q → values p = values q) :
    ∀ p ∈ pieces url, ∀ name, p.name? = some name →
      environment values url (bindingName name) = some (values name) := by
  intro p hp name hname
  have hmem : name ∈ placeholders url := List.mem_filterMap.2 ⟨p, hp, hname⟩
  have hsome : ((placeholders url).find? fun q => bindingName q == bindingName name).isSome :=
    List.find?_isSome.2 ⟨name, hmem, by simp⟩
  obtain ⟨q, hq⟩ := Option.isSome_iff_exists.1 hsome
  have hbinding : bindingName q = bindingName name := by simpa using List.find?_some hq
  simp [environment, hq, h q (List.mem_of_find?_eq_some hq) name hmem hbinding]

theorem environment_written {name : List Char} {us : List Nat}
    (h : environment written url (String.ofList name) = some us) :
    us = units (['$', '{'] ++ name ++ ['}']) := by
  obtain ⟨p, hp, rfl⟩ := Option.map_eq_some_iff.1 h
  have hname : bindingName p = String.ofList name := by simpa using List.find?_some hp
  simp [written, hname]

theorem units_blanks (depth : Nat) : units (Code.blanks depth) = List.replicate (2 * depth) 32 := by
  simp [units, Code.blanks, List.flatMap_replicate, codeUnits]

/-- The blanks in front of a line weigh nothing. -/
theorem weight_hanging (depth : Nat) (cs : List Char) :
    weight (units (Code.hanging depth cs)) = weight (units cs) := by
  have hblanks : weight (units (Code.blanks depth)) = 0 := by
    rw [units_blanks, weight, List.countP_replicate]
    rfl
  induction cs with
  | nil => rfl
  | cons c cs ih =>
    rw [Code.hanging]
    split
    next hc =>
      split <;> simp [hc, ih, hblanks]
    next => simp [ih]

/-- A text with a line feed becomes longer. -/
theorem length_hanging {depth : Nat} (hdepth : 0 < depth) (cs : List Char) :
    (units cs).length ≤ (units (Code.hanging depth cs)).length ∧
      ('\n' ∈ cs → (units cs).length < (units (Code.hanging depth cs)).length) := by
  induction cs with
  | nil => simp [Code.hanging]
  | cons c cs ih =>
    rw [Code.hanging]
    split
    next hc =>
      subst hc
      split
      next hhead =>
        have hmem : '\n' ∈ cs := List.mem_of_mem_head? hhead
        have hlt := ih.2 hmem
        simp only [List.nil_append, units_cons, List.length_append]
        omega
      next =>
        have hle := ih.1
        simp only [units_cons, units_append, units_blanks, List.length_append,
          List.length_replicate]
        omega
    next hc =>
      simp only [units_cons, List.length_append, List.mem_cons, Ne.symm hc, false_or]
      refine ⟨by omega, fun hmem => ?_⟩
      have hlt := ih.2 hmem
      omega

/-- A text that stands for itself when every variable stands for its own substitution has no
backtick, no escape and no line end. -/
theorem not_mem_of_echoes {depth : Nat} (hdepth : 0 < depth) {text : List Char}
    (h : Echoes (Code.hanging depth text) (units text)) :
    ∀ c ∈ specialChars, c ∉ text := by
  have hsub := (Code.sublist_hanging depth text).subset
  have hslash : '\\' ∉ Code.hanging depth text := by
    intro hmem
    have hlt := h.weight_lt hmem
    rw [weight_hanging] at hlt
    exact Nat.lt_irrefl _ hlt
  have hback : '\x60' ∉ text := fun hmem => h.no_backtick hslash (hsub hmem)
  have hreturn : '\r' ∉ text := fun hmem =>
    h.no_return hslash (List.mem_flatMap.2 ⟨'\r', hmem, by decide⟩)
  have hnewline : '\n' ∉ text := by
    intro hmem
    have hreturn' : '\r' ∉ Code.hanging depth text := fun hmem' =>
      (Code.mem_of_mem_hanging hmem').elim hreturn (by decide)
    have hlt := (length_hanging hdepth text).2 hmem
    rw [← h.eq hslash hreturn'] at hlt
    exact Nat.lt_irrefl _ hlt
  intro c hc hmem
  simp only [specialChars, List.mem_cons, List.not_mem_nil, or_false] at hc
  rcases hc with rfl | rfl | rfl | rfl
  · exact hback hmem
  · exact hslash (hsub hmem)
  · exact hnewline hmem
  · exact hreturn hmem

end UrlTemplate

/-! ## The property in the client function -/

namespace Endpoint

variable (e : Endpoint) (style : ErrorStyle)

/-- The text of the client function. -/
def functionText : List Char :=
  Code.charsOfAll 0 (e.function style).fragments

/-- The text of the client function in front of the properties of the request. -/
def functionHead : List Char :=
  Code.docAt 0 s!"{e.label}\nModule: {e.tag}".toList
    ++ Code.textAt 0 (e.function style).signature.toList
    ++ Code.textAt 1 "try \x7b".toList
    ++ Code.textAt 2 (s!"const res = await axios<{e.names.responseType}>(" ++ "\x7b").toList

/-- The text of the client function behind the properties of the request. -/
def functionTail : List Char :=
  Code.textAt 2 "\x7d)".toList
    ++ Code.textAt 2 s!"return {successValue style}".toList
    ++ Code.textAt 1 "\x7d catch (error) \x7b".toList
    ++ Code.textAt 2 s!"return {failureValue style}".toList
    ++ Code.textAt 1 "\x7d".toList
    ++ Code.textAt 0 "\x7d".toList

/-- The text of the client function up to the backtick that opens the literal of the URL. -/
def urlHead : List Char :=
  e.functionHead style ++ Code.blanks 3 ++ "url: `".toList

/-- The literal of the URL behind its opening backtick. -/
def urlLiteral : List Char :=
  Code.hanging 3 (interpolateUrl e.url).toList ++ ['\x60']

/-- The text of the client function behind the literal of the URL. -/
def urlTail : List Char :=
  ",\n".toList
    ++ Code.charsOfAll 3 (Code.ObjectLiteral.propertyFragments ⟨e.request.properties.tail⟩)
    ++ functionTail style

/-- The property of the URL as it is written inside the call. -/
theorem chars_urlProperty :
    Code.textAt 3 ((Code.Property.text ⟨"url", .template (interpolateUrl e.url)⟩) ++ ",").toList =
      Code.blanks 3 ++ "url: `".toList ++ e.urlLiteral ++ ",\n".toList := by
  have htext : ((Code.Property.text ⟨"url", .template (interpolateUrl e.url)⟩) ++ ",").toList =
      "url: `".toList ++ (interpolateUrl e.url).toList ++ "`,".toList := by
    simp only [Code.Property.text, String.toList_append, List.append_assoc]
    rfl
  rw [htext, Code.textAt_middle (by decide) (by decide) (by decide)]
  simp [urlLiteral]

/-- A literal without line feeds is written as it is. -/
theorem urlLiteral_of_not_mem
    (h : '\n' ∉ (UrlTemplate.pieces e.url).flatMap UrlTemplate.Piece.substituted) :
    e.urlLiteral = (UrlTemplate.pieces e.url).flatMap UrlTemplate.Piece.substituted ++ ['\x60'] := by
  rw [urlLiteral, interpolateUrl, String.toList_ofList, Code.hanging_of_not_mem h]

theorem functionText_eq :
    e.functionText style = e.urlHead style ++ e.urlLiteral ++ e.urlTail style := by
  have hproperties : Code.charsOfAll 3 e.request.propertyFragments =
      Code.blanks 3 ++ "url: `".toList ++ e.urlLiteral ++ ",\n".toList
        ++ Code.charsOfAll 3 (Code.ObjectLiteral.propertyFragments ⟨e.request.properties.tail⟩) := by
    rw [← chars_urlProperty]
    rfl
  have hfunction : e.functionText style =
      e.functionHead style ++ Code.charsOfAll 3 e.request.propertyFragments
        ++ functionTail style := Code.chars_tryCatch _ _ _ _ _ _ _ _ _ _ _
  rw [hfunction, hproperties, urlHead, urlTail]
  generalize e.functionHead style = head
  generalize functionTail style = tail
  simp only [List.append_assoc]

/-- Whether the URL is one complete template literal in the client function, and stands for
the URL template with the values of its placeholders, whatever they are. -/
def FaithfulUrl : Prop :=
  ∀ values : String → List Nat,
    value (UrlTemplate.environment values e.url) 0 (e.urlLiteral ++ e.urlTail style) =
      some (UrlTemplate.filled values e.url, e.urlTail style)

variable {e style}

theorem faithfulUrl_of_plain
    (hbindings : ∀ p ∈ UrlTemplate.placeholders e.url, ∀ q ∈ UrlTemplate.placeholders e.url,
      bindingName p = bindingName q → p = q)
    (hplain : UrlTemplate.plain (UrlTemplate.pieces e.url)) : e.FaithfulUrl style := by
  intro values
  have henv : ∀ p ∈ UrlTemplate.pieces e.url, ∀ name, p.name? = some name →
      UrlTemplate.environment values e.url (bindingName name) = some (values name) :=
    UrlTemplate.environment_of_mem fun p hp q hq h => congrArg values (hbindings p hp q hq h)
  rw [urlLiteral_of_not_mem e (UrlTemplate.newline_not_mem_of_plain hplain), List.append_assoc]
  exact UrlTemplate.value_substituted hplain henv (e.urlTail style)

theorem plain_of_faithfulUrl (h : e.FaithfulUrl style) :
    UrlTemplate.plain (UrlTemplate.pieces e.url) := by
  have hread := h UrlTemplate.written
  obtain ⟨body, hbody, hechoes⟩ :=
    echoes_value (fun _ _ => UrlTemplate.environment_written) hread
  -- What stands before the closing backtick is the whole literal, escapes or not.
  obtain rfl : Code.hanging 3 (interpolateUrl e.url).toList = body := by
    simpa [urlLiteral] using hbody
  rw [UrlTemplate.filled, UrlTemplate.filled_written, interpolateUrl, String.toList_ofList]
    at hechoes
  have htext := UrlTemplate.not_mem_of_echoes (by decide) hechoes
  rw [urlLiteral_of_not_mem e (htext '\n' (by decide)), List.append_assoc] at hread
  have henv : ∀ p ∈ UrlTemplate.pieces e.url, ∀ name, p.name? = some name →
      UrlTemplate.environment UrlTemplate.written e.url (bindingName name) =
        some (UrlTemplate.written name) :=
    UrlTemplate.environment_of_mem fun p _ q _ h => UrlTemplate.written_congr h
  have hcut : UrlTemplate.Cut e.url.toList (UrlTemplate.pieces e.url) := UrlTemplate.cut_iff.2 rfl
  refine UrlTemplate.plain_of_value (e.urlTail style) htext
    (fun qs rs heq => UrlTemplate.Cut.unclosed (heq ▸ hcut)) henv ?_
  exact Option.isSome_iff_exists.2 ⟨_, hread⟩

/-- The client function has the URL of its request as a template literal, and the literal is
faithful exactly when the URL is plain. -/
theorem faithfulUrl_iff (e : Endpoint) (style : ErrorStyle)
    (hbindings : ∀ p ∈ UrlTemplate.placeholders e.url, ∀ q ∈ UrlTemplate.placeholders e.url,
      bindingName p = bindingName q → p = q) :
    e.functionText style = e.urlHead style ++ e.urlLiteral ++ e.urlTail style ∧
      (e.FaithfulUrl style ↔ UrlTemplate.plain (UrlTemplate.pieces e.url)) :=
  ⟨e.functionText_eq style, plain_of_faithfulUrl, faithfulUrl_of_plain hbindings⟩

end Endpoint

/-- An endpoint that only has a URL. -/
def endpointAt (url : String) : Endpoint :=
  Route.endpoint ⟨url, .get, {}⟩ none none

namespace Endpoint

theorem faithfulUrl_iff_photo :
    (∀ p ∈ UrlTemplate.placeholders "/pets/\x7bpet-id\x7d/$\x7bclass\x7d",
      ∀ q ∈ UrlTemplate.placeholders "/pets/\x7bpet-id\x7d/$\x7bclass\x7d",
        bindingName p = bindingName q → p = q) ∧
    (endpointAt "/pets/\x7bpet-id\x7d/$\x7bclass\x7d").FaithfulUrl .sentinel ∧
    (endpointAt "/pets/\x7bpet-id\x7d/$\x7bclass\x7d").urlLiteral =
      "/pets/$\x7bpetId\x7d/$$\x7bclass_\x7d`".toList := by
  have hbindings : ∀ p ∈ UrlTemplate.placeholders "/pets/\x7bpet-id\x7d/$\x7bclass\x7d",
      ∀ q ∈ UrlTemplate.placeholders "/pets/\x7bpet-id\x7d/$\x7bclass\x7d",
        bindingName p = bindingName q → p = q := by decide +kernel
  refine ⟨hbindings, ?_, by decide +kernel⟩
  exact (faithfulUrl_iff (endpointAt "/pets/\x7bpet-id\x7d/$\x7bclass\x7d") .sentinel hbindings).2.2
    (by decide +kernel)

/-- Empty braces behind a dollar sign are text in a URL, but not in a template literal. -/
theorem endpointAt_dollar_not_faithfulUrl :
    UrlTemplate.placeholders "/price/$\x7b\x7d" = [] ∧
      (endpointAt "/price/$\x7b\x7d").urlLiteral = "/price/$\x7b\x7d`".toList ∧
      ¬ (endpointAt "/price/$\x7b\x7d").FaithfulUrl .sentinel := by
  refine ⟨by decide +kernel, by decide +kernel, fun h => ?_⟩
  exact absurd (plain_of_faithfulUrl h) (by decide +kernel)

end Endpoint

end SwaggerClient
