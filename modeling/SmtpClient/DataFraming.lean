import SmtpClient.MailData
import SmtpClient.ClosingLine

/-!
The framing of message texts. A message is sent as it stands in its file, so a
server takes all of it as one message when the last line, and no other one, is a
dot line that begins the text or stands behind a line that ends with CR LF.
-/
namespace SmtpClient.DataFraming

open MailTypes LineReading ClosingLine Maildir HeaderLines MailData

def crlf : Bytes := bytes "\r\n"

/-- The end of data marker stands at the end of a text and nowhere before it. -/
def Framed (t : Bytes) : Prop :=
  EndsAt crlf dotLine t t.length ∧ ∀ k < t.length, ¬ EndsAt crlf dotLine t k

/-- What the readers of the header leave in the file. -/
def bodyOf (f : Bytes) : Bytes := (readMailTo (readMailFrom f).2).2.2

theorem isLine_dotLine : IsLine newline dotLine := by
  refine ⟨bytes ".\r", rfl, ?_⟩
  decide

/-- A file is accepted when its body ends with the dot line in its own buffer. -/
theorem readMailFile_body (filename f : Bytes) (m : Mail) (acts : List FileAction)
    (h : readMailFile filename (some f) = (some m, acts)) :
    m.msg = textOf (bodyOf f) ∧
      (chunks newline 1000 (bodyOf f)).getLast?.map cstr = some dotLine := by
  unfold readMailFile at h
  simp only at h
  rw [show (readMailTo (readMailFrom f).2).2.2 = bodyOf f from rfl,
    readMailData_eq (bodyOf f)] at h
  by_cases hdot : (chunks newline 1000 (bodyOf f)).getLast?.map cstr = some dotLine
  · rw [if_pos hdot] at h
    refine ⟨?_, hdot⟩
    cases hfrom : (readMailFrom f).1 with
    | none =>
      simp only [hfrom] at h
      cases h
    | some l =>
      simp only [hfrom, cstr_textOf] at h
      split at h
      · cases h
      · cases h
        rfl
  · rw [if_neg hdot] at h
    cases hfrom : (readMailFrom f).1 with
    | none =>
      simp only [hfrom] at h
      cases h
    | some l =>
      simp only [hfrom] at h
      cases h

theorem isLine_crlf : IsLine newline crlf := ⟨bytes "\r", rfl, by decide⟩

/-- The text of an accepted file ends like the dot line. -/
theorem dotLine_suffix (t : Bytes)
    (h : (chunks newline 1000 t).getLast?.map cstr = some dotLine) : dotLine <:+ textOf t := by
  obtain ⟨c, hc, hdot⟩ := Option.map_eq_some_iff.mp h
  obtain ⟨front, hfront⟩ := List.getLast?_eq_some_iff.mp hc
  refine ⟨(front.map cstr).flatten, ?_⟩
  rw [textOf, said, hfront, List.map_append, List.flatten_append, List.map_singleton, hdot,
    List.flatten_singleton]

/-- Line i of a text is a dot line that a server sees: it begins the text or stands
behind a line that ends with CR LF. -/
def DotLineAt (t : Bytes) (i : ℕ) : Prop :=
  (splitLines newline t)[i]? = some (bytes ".\r\n") ∧
    ∀ l, 0 < i → (splitLines newline t)[i - 1]? = some l → bytes "\r\n" <:+ l

/-- The text of an accepted file is what stands in the file behind the header, up to
NULs, and ends like the dot line. The marker stands at its end and nowhere before it
exactly when its last line is its only dot line, and exactly then a server takes all of it
as one message. -/
theorem framed_iff_one_dotLine (filename f : Bytes) (m : Mail) (acts : List FileAction)
    (h : readMailFile filename (some f) = (some m, acts)) :
    (0 ∉ bodyOf f → m.msg = bodyOf f) ∧ dotLine <:+ m.msg ∧
      (Framed m.msg ↔ ∀ i, DotLineAt m.msg i ↔ i + 1 = (splitLines newline m.msg).length) ∧
      (Framed m.msg ↔
        ∀ more, received crlf dotLine (m.msg ++ more) = some (m.msg, more)) := by
  obtain ⟨hmsg, hdot⟩ := readMailFile_body filename f m acts h
  have hsuffix := dotLine_suffix (bodyOf f) hdot
  rw [← hmsg] at hsuffix
  have hne : m.msg ≠ [] := by
    intro hnil
    rw [hnil] at hsuffix
    exact absurd (List.suffix_nil.mp hsuffix) (by decide)
  refine ⟨?_, hsuffix, ends_once_iff newline crlf dotLine isLine_dotLine isLine_crlf m.msg hne, ?_⟩
  · intro hnul
    rw [hmsg, textOf_eq_self _ hnul]
  · constructor
    · intro hframed more
      exact (received_append_iff crlf dotLine m.msg more).mpr hframed
    · intro hall
      exact (received_append_iff crlf dotLine m.msg []).mp (hall [])

section Example

def header : Bytes := bytes "MAIL FROM: <a@b>\r\nRCPT TO: <c@d>\r\nDATA\r\n"

/-- A bare LF in front of another line does no harm, and in front of the dot line it
hides the marker. -/
theorem framed_iff_one_dotLine_bare :
    Framed (bytes "a\nb\r\n.\r\n") ∧ ¬ Framed (bytes "a\n.\r\n") := by
  have hhidden := framed_iff_one_dotLine [49] (header ++ bytes "a\n.\r\n")
    ⟨bytes "MAIL FROM: <a@b>\r\n", [⟨bytes "c@d", bytes "d"⟩], bytes "a\n.\r\n", [49]⟩ []
    (by decide)
  have hseen := framed_iff_one_dotLine [49] (header ++ bytes "a\nb\r\n.\r\n")
    ⟨bytes "MAIL FROM: <a@b>\r\n", [⟨bytes "c@d", bytes "d"⟩], bytes "a\nb\r\n.\r\n", [49]⟩ []
    (by decide)
  constructor
  · apply hseen.2.2.1.mpr
    have hlines : splitLines newline (bytes "a\nb\r\n.\r\n") =
        [bytes "a\n", bytes "b\r\n", bytes ".\r\n"] := by decide
    intro i
    unfold DotLineAt
    simp only [hlines]
    match i with
    | 0 => exact ⟨fun h => absurd h.1 (by decide), fun h => absurd h (by decide)⟩
    | 1 => exact ⟨fun h => absurd h.1 (by decide), fun h => absurd h (by decide)⟩
    | 2 =>
      refine ⟨fun _ => rfl, fun _ => ⟨rfl, ?_⟩⟩
      intro l _ hl
      obtain rfl := Option.some.inj hl
      decide
    | i + 3 => simp
  · intro hframed
    have hdot := (hhidden.2.2.1.mp hframed 1).mpr (by decide)
    exact absurd (hdot.2 (bytes "a\n") (by decide) (by decide)) (by decide)

/-- A text with a dot line in the middle is taken for two. -/
theorem accepted_not_framed :
    ¬ ∀ filename f m acts, readMailFile filename (some f) = (some m, acts) → Framed m.msg := by
  intro hall
  have hframed := hall [49] (header ++ bytes "a\r\n.\r\nb\r\n.\r\n")
    ⟨bytes "MAIL FROM: <a@b>\r\n", [⟨bytes "c@d", bytes "d"⟩], bytes "a\r\n.\r\nb\r\n.\r\n", [49]⟩ []
    (by decide)
  exact hframed.2 6 (by decide) (by decide)

end Example

end SmtpClient.DataFraming
