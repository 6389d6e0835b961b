import Mathlib.Data.List.Infix
import Mathlib.Data.List.TakeWhile
import Mathlib.Algebra.GroupWithZero.Nat

/-!
# Paths of URLs

How a URL becomes the parameters of a route.  The path begins after the authority and ends at the
first `?` or `#`, and its segments are separated by `/`.  A client may resolve the dot segments
before it sends the path.  The server compares the segments with a pattern and decodes those that
the parameters of the pattern have captured.

Resolving the dot segments is one step of what a URL parser does to a path, and the only one here.
A parser of `http` URLs also takes a backslash for a separator, drops tabs and line breaks, and
cuts off spaces at the end.

Nothing on this way makes a text longer: resolving dot segments makes a path shorter as soon as
there is one, and so does decoding as soon as there is an escape.  So a path that arrives at its
full length has arrived as it was sent.
-/

namespace Machine.Url

/-! ## Percent-decoding -/

/-- The UTF-8 encoding of a text. -/
def utf8 (text : List Char) : List UInt8 := text.flatMap String.utf8EncodeChar

def hexDigit (c : Char) : Option Nat :=
  if '0' ≤ c ∧ c ≤ '9' then some (c.toNat - '0'.toNat)
  else if 'a' ≤ c ∧ c ≤ 'f' then some (c.toNat - 'a'.toNat + 10)
  else if 'A' ≤ c ∧ c ≤ 'F' then some (c.toNat - 'A'.toNat + 10)
  else none

/-- The byte that three characters stand for if they are an escape. -/
def escapedByte (c a b : Char) : Option UInt8 :=
  if c = '%' then
    match hexDigit a, hexDigit b with
    | some x, some y => some (UInt8.ofNat (16 * x + y))
    | _, _ => none
  else none

/-- Decode the escapes of a text.  A `%` without two digits stays. -/
def percentDecode : List Char → List UInt8
  | c :: a :: b :: rest =>
      match escapedByte c a b with
      | some byte => byte :: percentDecode rest
      | none => String.utf8EncodeChar c ++ percentDecode (a :: b :: rest)
  | text => utf8 text

/-- A parameter as a string, if its bytes are one. -/
def decodeParam (segment : List Char) : Option String :=
  String.fromUTF8? (percentDecode segment).toByteArray

/-- A text without escapes. -/
def Unescaped (text : List Char) : Prop :=
  ∀ c a b, [c, a, b] <:+: text → escapedByte c a b = none

/-! ## Requests -/

/-- What follows the `://` of a URL. -/
def afterScheme : List Char → List Char
  | ':' :: '/' :: '/' :: rest => rest
  | _ :: rest => afterScheme rest
  | [] => []

/-- The characters that end a path. -/
def endsPath (c : Char) : Bool := c = '?' || c = '#'

/-- The characters that end an authority. -/
def endsAuthority (c : Char) : Bool := c = '/' || endsPath c

/-- The path of a URL. -/
def requestPath (url : String) : List Char :=
  ((afterScheme url.toList).dropWhile fun c => !endsAuthority c).takeWhile fun c => !endsPath c

/-- The segments of a path that begins with `/`. -/
def segments (path : List Char) : List (List Char) := path.tail.splitOn '/'

/-- A URL that ends after its authority. -/
def IsOrigin (base : String) : Prop :=
  ∃ scheme authority : List Char, base.toList = scheme ++ ':' :: '/' :: '/' :: authority ∧
    ':' ∉ scheme ∧ ∀ c ∈ authority, !endsAuthority c

/-! ## Dot segments -/

/-- The spellings of `.`. -/
def singleDot : List (List Char) := [['.'], ['%', '2', 'e'], ['%', '2', 'E']]

/-- The spellings of `..`. -/
def doubleDot : List (List Char) := singleDot.flatMap fun a => singleDot.map fun b => a ++ b

def IsDot (segment : List Char) : Prop := segment ∈ singleDot ∨ segment ∈ doubleDot

/-- Add a segment to those that are resolved.  A dot segment at the end leaves an empty one. -/
def resolveSegment (resolved : List (List Char)) (segment : List Char) (last : Bool) :
    List (List Char) :=
  if segment ∈ doubleDot then resolved.dropLast ++ (if last then [[]] else [])
  else if segment ∈ singleDot then resolved ++ (if last then [[]] else [])
  else resolved ++ [segment]

def resolveDots (resolved : List (List Char)) : List (List Char) → List (List Char)
  | [] => resolved
  | segment :: rest => resolveDots (resolveSegment resolved segment rest.isEmpty) rest

/-- What a client does with dot segments. -/
inductive DotSegments where
  | kept
  /-- The dot segments are resolved, and nothing else is done to the path. -/
  | resolved
deriving DecidableEq, Repr

def DotSegments.send (dots : DotSegments) (segments : List (List Char)) : List (List Char) :=
  match dots with
  | .kept => segments
  | .resolved => resolveDots [] segments

/-! ## Patterns -/

/-- A segment of the path of a route. -/
inductive PathSegment where
  | fixed (text : String)
  | param (name : String)
deriving DecidableEq, Repr

/-- Match segments with the path of a route: what its parameters capture. -/
def capture : List PathSegment → List (List Char) → Option (List (List Char))
  | [], [] => some []
  | .fixed text :: pattern, segment :: rest =>
      if segment = text.toList then capture pattern rest else none
  | .param _ :: pattern, segment :: rest =>
      if segment = [] then none else (capture pattern rest).map (segment :: ·)
  | _, _ => none

variable {text : List Char} {path : List PathSegment} {segs caps : List (List Char)}

theorem capture_nil : capture [] segs = some caps ↔ segs = [] ∧ caps = [] := by
  cases segs <;> simp [capture, eq_comm]

theorem capture_fixed {t : String} :
    capture (.fixed t :: path) segs = some caps ↔
      ∃ rest, segs = t.toList :: rest ∧ capture path rest = some caps := by
  cases segs <;> simp [capture]

theorem capture_param {name : String} :
    capture (.param name :: path) segs = some caps ↔
      ∃ s rest cs, segs = s :: rest ∧ s ≠ [] ∧ capture path rest = some cs ∧ caps = s :: cs := by
  cases segs with
  | nil => simp [capture]
  | cons s rest =>
      by_cases hs : s = []
      · simp [capture, hs]
      · cases hrest : capture path rest <;> simp [capture, hs, hrest, eq_comm]

theorem length_of_capture (h : capture path segs = some caps) : segs.length = path.length := by
  induction path generalizing segs caps with
  | nil => rw [(capture_nil.mp h).1, List.length_nil, List.length_nil]
  | cons p path ih =>
      cases p with
      | fixed t =>
          obtain ⟨rest, rfl, hrest⟩ := capture_fixed.mp h
          rw [List.length_cons, List.length_cons, ih hrest]
      | param name =>
          obtain ⟨s, rest, cs, rfl, -, hrest, -⟩ := capture_param.mp h
          rw [List.length_cons, List.length_cons, ih hrest]

/-! ## Decoding -/

theorem utf8_cons (c : Char) (text : List Char) :
    utf8 (c :: text) = String.utf8EncodeChar c ++ utf8 text := List.flatMap_cons

theorem utf8_append (a b : List Char) : utf8 (a ++ b) = utf8 a ++ utf8 b := List.flatMap_append

theorem utf8EncodeChar_length_pos (c : Char) : 0 < (String.utf8EncodeChar c).length :=
  List.length_pos_iff.mpr String.utf8EncodeChar_ne_nil

theorem length_le_utf8 (text : List Char) : text.length ≤ (utf8 text).length := by
  induction text with
  | nil => exact Nat.zero_le _
  | cons c text ih =>
      have hc := utf8EncodeChar_length_pos c
      rw [utf8_cons, List.length_append, List.length_cons]
      omega

theorem decodeParam_eq_some {segment : List Char} {t : String} :
    decodeParam segment = some t ↔ percentDecode segment = utf8 t.toList := by
  have hbytes : t.toByteArray = (utf8 t.toList).toByteArray := String.utf8Encode_toList.symm
  unfold decodeParam String.fromUTF8?
  constructor
  · intro h
    split at h
    · have heq : (percentDecode segment).toByteArray = (utf8 t.toList).toByteArray :=
        (congrArg String.toByteArray (Option.some.inj h)).trans hbytes
      have hdata := congrArg ByteArray.data heq
      rw [List.data_toByteArray, List.data_toByteArray] at hdata
      exact List.toArray_inj hdata
    · cases h
  · intro h
    rw [h, ← hbytes, dif_pos t.isValidUTF8]
    rfl

theorem Unescaped.tail {c : Char} (h : Unescaped (c :: text)) : Unescaped text :=
  fun x a b hocc => h x a b (hocc.trans (List.infix_cons (List.infix_refl _)))

theorem unescaped_of_not_mem (h : '%' ∉ text) : Unescaped text := by
  intro c a b hocc
  have hc : c ∈ text := hocc.subset List.mem_cons_self
  have hne : c ≠ '%' := fun heq => h (heq ▸ hc)
  exact if_neg hne

theorem percentDecode_of_unescaped (h : Unescaped text) : percentDecode text = utf8 text := by
  induction text using percentDecode.induct with
  | case1 c a b rest byte hbyte ih =>
      rw [h c a b (List.prefix_append [c, a, b] rest).isInfix] at hbyte
      cases hbyte
  | case2 c a b rest hnone ih =>
      rw [percentDecode, hnone, utf8_cons]
      dsimp only
      rw [ih h.tail]
  | case3 text hshort => rw [percentDecode]; exact hshort

/-- Decoding makes a text with an escape shorter. -/
theorem percentDecode_cases (text : List Char) :
    Unescaped text ∨ (percentDecode text).length < (utf8 text).length := by
  induction text using percentDecode.induct with
  | case1 c a b rest byte hbyte ih =>
      right
      have hle : (percentDecode rest).length ≤ (utf8 rest).length := by
        obtain hrest | hrest := ih
        · rw [percentDecode_of_unescaped hrest]
        · omega
      have hc := utf8EncodeChar_length_pos c
      have ha := utf8EncodeChar_length_pos a
      rw [percentDecode, hbyte]
      simp only [utf8_cons, List.length_cons, List.length_append]
      omega
  | case2 c a b rest hnone ih =>
      obtain hrest | hrest := ih
      · left
        intro x y z hocc
        obtain hpre | hocc := List.infix_cons_iff.mp hocc
        · simp only [List.cons_prefix_cons] at hpre
          obtain ⟨rfl, rfl, rfl, -⟩ := hpre
          exact hnone
        · exact hrest x y z hocc
      · right
        rw [percentDecode, hnone, utf8_cons c]
        dsimp only
        rw [List.length_append, List.length_append]
        omega
  | case3 text hshort =>
      left
      intro x y z hocc
      have hlen := hocc.length_le
      match text, hshort with
      | c :: a :: b :: rest, hshort => exact (hshort c a b rest rfl).elim
      | [], _ | [_], _ | [_, _], _ => simp at hlen

theorem length_percentDecode_le (text : List Char) :
    (percentDecode text).length ≤ (utf8 text).length := by
  obtain h | h := percentDecode_cases text
  · rw [percentDecode_of_unescaped h]
  · omega

/-- A segment that is decoded to a text of its own length has no escape. -/
theorem unescaped_of_decodeParam {segment : List Char} {t : String}
    (h : decodeParam segment = some t)
    (hlen : (utf8 segment).length ≤ (utf8 t.toList).length) : Unescaped segment := by
  rw [← decodeParam_eq_some.mp h] at hlen
  exact (percentDecode_cases segment).resolve_right (Nat.not_lt.mpr hlen)

theorem decodeParam_of_unescaped {t : String} (h : Unescaped t.toList) :
    decodeParam t.toList = some t :=
  decodeParam_eq_some.mpr (percentDecode_of_unescaped h)

theorem length_le_of_decodeParam {segment : List Char} {t : String}
    (h : decodeParam segment = some t) : (utf8 t.toList).length ≤ (utf8 segment).length := by
  rw [← decodeParam_eq_some.mp h]
  exact length_percentDecode_le segment

/-! ## Paths -/

/-- The length of the path that has these segments, in bytes. -/
def weight (segs : List (List Char)) : Nat := (segs.map fun s => (utf8 s).length + 1).sum

theorem weight_cons (s : List Char) (segs : List (List Char)) :
    weight (s :: segs) = (utf8 s).length + 1 + weight segs := by
  simp [weight]

theorem weight_append (segs segs' : List (List Char)) :
    weight (segs ++ segs') = weight segs + weight segs' := by
  simp [weight]

theorem weight_dropLast_le (segs : List (List Char)) : weight segs.dropLast ≤ weight segs := by
  obtain rfl | ⟨init, last, rfl⟩ := segs.eq_nil_or_concat
  · exact Nat.le_refl _
  · rw [List.concat_eq_append, List.dropLast_concat, weight_append]
    omega

theorem weight_splitOn (text : List Char) :
    weight (text.splitOn '/') = (utf8 text).length + 1 := by
  induction text with
  | nil => simp [weight, utf8]
  | cons c text ih =>
      rw [List.splitOn_cons_eq_if_modifyHead, utf8_cons, List.length_append]
      split
      case isTrue h =>
        have hc : (String.utf8EncodeChar c).length = 1 := by
          rw [eq_of_beq h]
          rfl
        rw [weight_cons, ih, hc]
        simp [utf8]
        omega
      case isFalse =>
        obtain ⟨s, segs, hsegs⟩ := List.exists_cons_of_ne_nil (List.splitOn_ne_nil '/' text)
        rw [hsegs, weight_cons] at ih
        rw [hsegs, List.modifyHead_cons, weight_cons, utf8_cons, List.length_append]
        omega

/-- Cutting a text off makes it shorter. -/
theorem takeWhile_cases (p : Char → Bool) (text : List Char) :
    (∀ c ∈ text, p c) ∨ (utf8 (text.takeWhile p)).length < (utf8 text).length := by
  have hsplit := congrArg utf8 (List.takeWhile_append_dropWhile (p := p) (l := text))
  rw [utf8_append] at hsplit
  by_cases hdrop : text.dropWhile p = []
  · exact .inl (List.dropWhile_eq_nil_iff.mp hdrop)
  · right
    have hpos := List.length_pos_iff.mpr hdrop
    have hle := length_le_utf8 (text.dropWhile p)
    rw [← hsplit, List.length_append]
    omega

theorem forall_not_endsPath :
    (∀ c ∈ text, !endsPath c) ↔ '?' ∉ text ∧ '#' ∉ text := by
  constructor
  · intro h
    exact ⟨fun hmem => absurd (h _ hmem) (by decide), fun hmem => absurd (h _ hmem) (by decide)⟩
  · rintro ⟨hquery, hfragment⟩ c hc
    have hne : c ≠ '?' ∧ c ≠ '#' := ⟨fun h => hquery (h ▸ hc), fun h => hfragment (h ▸ hc)⟩
    simpa [endsPath] using hne

/-- A text is a single segment only if it has no separator. -/
theorem not_mem_of_splitOn_eq {s : List Char} (h : text.splitOn '/' = [s]) :
    s = text ∧ '/' ∉ text := by
  have hjoin : ['/'].intercalate (text.splitOn '/') = text := List.intercalate_splitOn '/'
  rw [h] at hjoin
  refine ⟨by simpa using hjoin, fun hmem => ?_⟩
  obtain ⟨a, b, rfl⟩ := List.append_of_mem hmem
  rw [List.splitOn_append_cons_self] at h
  have hlen := congrArg List.length h
  have ha := List.length_pos_iff.mpr (List.splitOn_ne_nil '/' a)
  have hb := List.length_pos_iff.mpr (List.splitOn_ne_nil '/' b)
  rw [List.length_append, List.length_singleton] at hlen
  omega

/-- Two texts are two segments only if neither has a separator. -/
theorem not_mem_of_splitOn_append_eq {a b s t : List Char}
    (h : a.splitOn '/' ++ b.splitOn '/' = [s, t]) :
    (s = a ∧ '/' ∉ a) ∧ t = b ∧ '/' ∉ b := by
  obtain ⟨x, xs, hx⟩ := List.exists_cons_of_ne_nil (List.splitOn_ne_nil '/' a)
  rw [hx, List.cons_append, List.cons.injEq] at h
  obtain ⟨rfl, hrest⟩ := h
  obtain ⟨rfl, hb⟩ | ⟨-, hb⟩ := List.append_eq_singleton_iff.mp hrest
  · exact ⟨not_mem_of_splitOn_eq hx, not_mem_of_splitOn_eq hb⟩
  · exact absurd hb (List.splitOn_ne_nil '/' b)

/-! ## Dot segments do not survive -/

theorem IsDot.length_pos {s : List Char} (h : IsDot s) : 0 < s.length := by
  obtain h | h := h
  · have hall : ∀ s ∈ singleDot, 0 < s.length := by decide
    exact hall s h
  · have hall : ∀ s ∈ doubleDot, 0 < s.length := by decide
    exact hall s h

theorem resolveSegment_of_not_isDot {resolved : List (List Char)} {s : List Char} {last : Bool}
    (h : ¬ IsDot s) : resolveSegment resolved s last = resolved ++ [s] := by
  rw [resolveSegment, if_neg fun hd => h (.inr hd), if_neg fun hs => h (.inl hs)]

theorem resolveDots_of_not_isDot {rest resolved : List (List Char)}
    (h : ∀ s ∈ rest, ¬ IsDot s) : resolveDots resolved rest = resolved ++ rest := by
  induction rest generalizing resolved with
  | nil => exact (List.append_nil resolved).symm
  | cons s rest ih =>
      rw [resolveDots, resolveSegment_of_not_isDot (h s List.mem_cons_self),
        ih fun s' hs' => h s' (List.mem_cons_of_mem s hs'), List.append_assoc,
        List.singleton_append]

/-- A dot segment takes more away than it leaves. -/
theorem weight_resolveSegment_lt (resolved : List (List Char)) {s : List Char} (last : Bool)
    (h : IsDot s) :
    weight (resolveSegment resolved s last) < weight resolved + ((utf8 s).length + 1) := by
  have hlast : weight (if last then [[]] else []) ≤ 1 := by cases last <;> decide
  have hpos := h.length_pos
  have hle := length_le_utf8 s
  have hdrop := weight_dropLast_le resolved
  unfold resolveSegment
  split
  · rw [weight_append]
    omega
  case isFalse hdouble =>
    rw [if_pos (h.resolve_right hdouble), weight_append]
    omega

theorem resolveDots_cases (rest resolved : List (List Char)) :
    (∀ s ∈ rest, ¬ IsDot s) ∨
    weight (resolveDots resolved rest) < weight resolved + weight rest := by
  induction rest generalizing resolved with
  | nil => exact .inl fun s hs => absurd hs List.not_mem_nil
  | cons s rest ih =>
      rw [resolveDots, weight_cons]
      by_cases hs : IsDot s
      · right
        have hlt := weight_resolveSegment_lt resolved rest.isEmpty hs
        obtain hrest | hrest := ih (resolveSegment resolved s rest.isEmpty)
        · rw [resolveDots_of_not_isDot hrest, weight_append]
          omega
        · omega
      · rw [resolveSegment_of_not_isDot hs]
        refine (ih (resolved ++ [s])).imp (fun hrest => List.forall_mem_cons.mpr ⟨hs, hrest⟩) ?_
        intro hlt
        rw [weight_append, weight_cons s []] at hlt
        have hnil : weight [] = 0 := rfl
        omega

namespace DotSegments

variable {dots : DotSegments}

theorem send_of_not_isDot (h : dots = .resolved → ∀ s ∈ segs, ¬ IsDot s) :
    dots.send segs = segs := by
  cases dots with
  | kept => rfl
  | resolved => exact resolveDots_of_not_isDot (h rfl)

/-- A client sends no dot segments, or a shorter path. -/
theorem send_cases (dots : DotSegments) (segs : List (List Char)) :
    (dots = .resolved → ∀ s ∈ segs, ¬ IsDot s) ∨ weight (dots.send segs) < weight segs := by
  cases dots with
  | kept => exact .inl fun h => by cases h
  | resolved =>
      refine (resolveDots_cases segs []).imp (fun h _ => h) fun hlt => ?_
      have hnil : weight [] = 0 := rfl
      rwa [hnil, Nat.zero_add] at hlt

theorem weight_send_le (dots : DotSegments) (segs : List (List Char)) :
    weight (dots.send segs) ≤ weight segs := by
  obtain h | h := dots.send_cases segs
  · rw [send_of_not_isDot h]
  · omega

end DotSegments

/-! ## The path of a URL with a known origin -/

theorem afterScheme_append {scheme rest : List Char} (h : ':' ∉ scheme) :
    afterScheme (scheme ++ ':' :: '/' :: '/' :: rest) = rest := by
  induction scheme with
  | nil => rfl
  | cons c scheme ih =>
      rw [List.cons_append, afterScheme, ih (List.not_mem_of_not_mem_cons h)]
      intro rest' hcolon
      exact absurd hcolon.symm (List.ne_of_not_mem_cons h)

/-- The path of a URL that an origin begins. -/
theorem requestPath_append {base : String} (h : IsOrigin base) (path : String) {rest : List Char}
    (hpath : path.toList = '/' :: rest) :
    requestPath (base ++ path) = '/' :: rest.takeWhile fun c => !endsPath c := by
  obtain ⟨scheme, authority, hbase, hscheme, hauthority⟩ := h
  rw [requestPath, String.toList_append, hbase, hpath, List.append_assoc, List.cons_append,
    List.cons_append, List.cons_append, afterScheme_append hscheme,
    List.dropWhile_append_of_pos hauthority]
  rfl

end Machine.Url
