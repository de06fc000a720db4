/-
The names between client and server: the client writes a path into an Interest name, the server reads the file name and
the packet index back from the printed name. In between the name is a list of decoded components, and printing escapes
what is not in `A-Za-z0-9+._-`; the server does not decode it.

- `dispatch`: which handler `onInterest` calls, and with what (`onInterest_eq_handle`).
- `printed_slashed`: components of unescaped characters come out as they went in.
- `naming_iff`: both requests are read back as they were meant exactly when the path has no character that is escaped.
- `tilde_is_escaped`: the path `a~b` is read as `a%7Eb`.
-/
import NdnDash.Core.NameUri
import NdnDash.Ndn.Transfer

namespace NdnDash.Ndn

open NdnDash.Text NdnDash.NameUri NdnDash.Das

/-! ## What the server makes of a name -/

/-- the handler that `onInterest` calls, and its arguments -/
inductive Handler where
  | onRequestSegNumber (fileName : Str)
  | onRequestSegData (fileName : Str) (segNo : UInt32)
  | unrecognised
deriving DecidableEq, Repr

def dispatch (uri : Str) : Handler :=
  if strRequestNumber.isPrefixOf uri then .onRequestSegNumber (uri.drop strRequestNumber.length)
  else if strRequestData.isPrefixOf uri then .onRequestSegData (uri.drop strRequestData.length) (segNo uri)
  else .unrecognised

def handle (s : Server) : Handler → Outcome × Server
  | .onRequestSegNumber fileName => Das.onRequestSegNumber s fileName
  | .onRequestSegData fileName segNo => Das.onRequestSegData s fileName segNo
  | .unrecognised => (.silent, s)

/-- `onInterest` does what its handler does -/
theorem onInterest_eq_handle (s : Server) (uri : Str) : onInterest s uri = handle s (dispatch uri) := by
  unfold onInterest dispatch
  split_ifs <;> rfl

/-- the file name of `onRequestSegData`, after its own trimming -/
def trimmed (fileName : Str) : Str := beforeLast '/' fileName

/-- the name of a request, written by the client and printed at the server -/
def printedName (r : Request) : Str := nameUri (ofUri r.segName)

/-- both requests for a path are read back as they were meant -/
def ReadBack (path : Str) (i : ℕ) : Prop :=
  dispatch (printedName (.number path)) = .onRequestSegNumber path ∧
    ∃ fileName segNo, dispatch (printedName (.data path i)) = .onRequestSegData fileName segNo ∧
      trimmed fileName = path ∧ segNo.toNat = i

/-! ## Paths -/

/-- the characters of a URL, the percent sign and the slash left out -/
def urlChar (c : Char) : Bool := c.isAlphanum || "-._~:?#[]@!$&'()*+,;=".toList.contains c

/-- a component of a resource path: URL characters, not all of them periods (so at least one) -/
structure Component (part : Str) : Prop where
  url : ∀ c ∈ part, urlChar c = true
  notPeriods : ∃ c ∈ part, c ≠ '.'

theorem toNat_lt_of_urlChar {c : Char} (h : urlChar c = true) : c.toNat < 256 := by
  unfold urlChar at h
  rcases Bool.or_eq_true_iff.1 h with h | h
  · exact toNat_lt_of_unescaped (by simp [unescaped, h])
  · have hmem := List.contains_iff_mem.1 h
    have hall : ("-._~:?#[]@!$&'()*+,;=".toList.all fun d => d.toNat < 256) = true := by decide
    exact of_decide_eq_true (List.all_eq_true.1 hall c hmem)

theorem Component.percent {part : Str} (h : Component part) : '%' ∉ part :=
  fun hm => absurd (h.url _ hm) (by decide)

theorem Component.part {part : Str} (h : Component part) : Part part := by
  obtain ⟨c, hc, -⟩ := h.notPeriods
  exact ⟨List.ne_nil_of_mem hc, fun hm => absurd (h.url _ hm) (by decide)⟩

/-! ## Through the name -/

/-- a written name is read as its components -/
theorem ofUri_slashed {parts : List Str} (h : ∀ part ∈ parts, Part part) :
    ofUri (slashed parts) = parts.map unescape := by
  cases parts with
  | nil => rfl
  | cons part parts =>
    have hsplit : split '/' (slashed (part :: parts)) = [] :: part :: parts := by
      rw [slashed_cons, ← List.nil_append ('/' :: _), split_append List.not_mem_nil, split_joined h]
    have hall : (part :: parts).filter (· ≠ []) = part :: parts := by
      rw [List.filter_eq_self]
      intro p hp
      simpa using (h p hp).1
    rw [ofUri, hsplit, List.filter_cons_of_neg (by simp), hall]

theorem nameUri_of_ne {name : List Bytes} (h : name ≠ []) : nameUri name = slashed (name.map componentUri) :=
  if_neg h

/-- what was written is printed component by component -/
theorem printed_slashed {parts : List Str} (hne : parts ≠ []) (h : ∀ part ∈ parts, Part part) :
    nameUri (ofUri (slashed parts)) = slashed (parts.map fun part => componentUri (unescape part)) := by
  rw [ofUri_slashed h, nameUri_of_ne (by simpa using hne), List.map_map]
  rfl

/-- the two keywords and the kind of request, before the path -/
def keyword (request : Str) : List Str := ["ustc".toList, "ndnDash".toList, request]

theorem slashed_keyword (request : Str) {parts : List Str} (hne : parts ≠ []) :
    slashed (keyword request ++ parts) = "/ustc/ndnDash/".toList ++ (request ++ '/' :: joined parts) := by
  cases parts with
  | nil => exact absurd rfl hne
  | cons part parts => simp [keyword, slashed, joined]

/-- how a component is printed at the server -/
def printed (part : Str) : Str := componentUri (unescape part)

theorem printed_keyword {request : Str} (h : printed request = request) :
    (keyword request).map printed = keyword request := by
  have hustc : printed "ustc".toList = "ustc".toList := by decide
  have hndnDash : printed "ndnDash".toList = "ndnDash".toList := by decide
  simp only [keyword, List.map_cons, List.map_nil, hustc, hndnDash, h]

/-- **The printed name** of a request for a path of parts -/
theorem printed_request {request : Str} (hrequest : Part request) (hprinted : printed request = request)
    {parts : List Str} (hne : parts ≠ []) (h : ∀ part ∈ parts, Part part) :
    nameUri (ofUri ("/ustc/ndnDash/".toList ++ (request ++ '/' :: joined parts))) =
      "/ustc/ndnDash/".toList ++ (request ++ '/' :: joined (parts.map printed)) := by
  have hall : ∀ part ∈ keyword request ++ parts, Part part := by
    intro part hpart
    rcases List.mem_append.1 hpart with hpart | hpart
    · simp only [keyword, List.mem_cons, List.not_mem_nil, or_false] at hpart
      rcases hpart with rfl | rfl | rfl
      · exact ⟨by decide, by decide⟩
      · exact ⟨by decide, by decide⟩
      · exact hrequest
    · exact h part hpart
  calc nameUri (ofUri ("/ustc/ndnDash/".toList ++ (request ++ '/' :: joined parts)))
      = nameUri (ofUri (slashed (keyword request ++ parts))) := by rw [slashed_keyword request hne]
    _ = slashed ((keyword request ++ parts).map printed) := printed_slashed (by simp [keyword]) hall
    _ = slashed (keyword request ++ parts.map printed) := by rw [List.map_append, printed_keyword hprinted]
    _ = _ := slashed_keyword request (by simpa using hne)

theorem strRequestNumber_append (fileName : Str) :
    strRequestNumber ++ fileName = "/ustc/ndnDash/".toList ++ ("requestNumber".toList ++ '/' :: fileName) := by
  have hsplit : strRequestNumber = "/ustc/ndnDash/".toList ++ ("requestNumber".toList ++ ['/']) := by decide
  rw [hsplit, List.append_assoc, List.append_assoc, List.singleton_append]

theorem strRequestData_append (fileName : Str) :
    strRequestData ++ fileName = "/ustc/ndnDash/".toList ++ ("requestData".toList ++ '/' :: fileName) := by
  have hsplit : strRequestData = "/ustc/ndnDash/".toList ++ ("requestData".toList ++ ['/']) := by decide
  rw [hsplit, List.append_assoc, List.append_assoc, List.singleton_append]

theorem dispatch_number (fileName : Str) : dispatch (strRequestNumber ++ fileName) = .onRequestSegNumber fileName := by
  have h : strRequestNumber.isPrefixOf (strRequestNumber ++ fileName) = true :=
    List.isPrefixOf_iff_prefix.2 (List.prefix_append _ _)
  rw [dispatch, if_pos h, List.drop_left]

theorem dispatch_data (fileName : Str) : dispatch (strRequestData ++ fileName) =
    .onRequestSegData fileName (segNo (strRequestData ++ fileName)) := by
  have h0 : strRequestNumber.isPrefixOf (strRequestData ++ fileName) = false := rfl
  have h : strRequestData.isPrefixOf (strRequestData ++ fileName) = true :=
    List.isPrefixOf_iff_prefix.2 (List.prefix_append _ _)
  rw [dispatch, h0, if_neg (by decide), if_pos h, List.drop_left]

/-! ## Main result -/

variable {parts : List Str}

/-- the number request is answered for the printed path -/
theorem dispatch_printed_number (hne : parts ≠ []) (h : ∀ part ∈ parts, Component part) :
    dispatch (printedName (.number (joined parts))) = .onRequestSegNumber (joined (parts.map printed)) := by
  have hrequest : printed "requestNumber".toList = "requestNumber".toList := by decide
  have hprinted := printed_request ⟨by decide, by decide⟩ hrequest hne fun p hp => (h p hp).part
  have hname : printedName (.number (joined parts)) = strRequestNumber ++ joined (parts.map printed) := by
    calc printedName (.number (joined parts))
        = nameUri (ofUri (strRequestNumber ++ joined parts)) := rfl
      _ = strRequestNumber ++ joined (parts.map printed) := by
          rw [strRequestNumber_append, hprinted, strRequestNumber_append]
  rw [hname, dispatch_number]

/-- the data request is answered for the printed path and index -/
theorem dispatch_printed_data (hne : parts ≠ []) (h : ∀ part ∈ parts, Component part) (i : ℕ) :
    dispatch (printedName (.data (joined parts) i)) =
      .onRequestSegData (joined (parts.map printed) ++ '/' :: decimal i)
        (segNo (strRequestData ++ (joined (parts.map printed) ++ '/' :: decimal i))) := by
  have hdigits : ∀ c ∈ decimal i, unescaped c = true := fun c hc => by
    simp [unescaped, Char.isAlphanum, isDigit_of_mem_decimal hc]
  have hperiod : ∃ c ∈ decimal i, c ≠ '.' := by
    obtain ⟨c, hc⟩ := List.exists_mem_of_ne_nil _ (decimal_ne_nil i)
    have hdot : '.' ∉ decimal i := notMem_of_digits (fun c hc => isDigit_of_mem_decimal hc) rfl
    exact ⟨c, hc, fun heq => hdot (heq ▸ hc)⟩
  have hslash : '/' ∉ decimal i := notMem_of_digits (fun c hc => isDigit_of_mem_decimal hc) rfl
  have hlast : slashed [decimal i] = '/' :: decimal i := congrArg ('/' :: ·) (List.append_nil _)
  have hparts : ∀ part ∈ parts ++ [decimal i], Part part := by
    intro part hpart
    rcases List.mem_append.1 hpart with hpart | hpart
    · exact (h part hpart).part
    · rw [List.mem_singleton.1 hpart]
      exact ⟨decimal_ne_nil i, hslash⟩
  have hrequest : printed "requestData".toList = "requestData".toList := by decide
  have hprinted := printed_request ⟨by decide, by decide⟩ hrequest (by simp) hparts
  have hindex : [decimal i].map printed = [decimal i] :=
    congrArg (fun part => [part]) (componentUri_unescape hdigits hperiod)
  rw [List.map_append, hindex, joined_append hne, joined_append (by simpa using hne), hlast] at hprinted
  have hname : printedName (.data (joined parts) i) =
      strRequestData ++ (joined (parts.map printed) ++ '/' :: decimal i) := by
    calc printedName (.data (joined parts) i)
        = nameUri (ofUri (strRequestData ++ (joined parts ++ '/' :: decimal i))) := rfl
      _ = strRequestData ++ (joined (parts.map printed) ++ '/' :: decimal i) := by
          rw [strRequestData_append, hprinted, strRequestData_append]
  rw [hname, dispatch_data]

/-- **Naming.** For every path and packet index, the server reads both requests as they were meant exactly when every
character of the path's components is one that is printed as it is. -/
theorem naming_iff (hne : parts ≠ []) (h : ∀ part ∈ parts, Component part) {i : ℕ} (hi : i < 2 ^ 31) :
    ReadBack (joined parts) i ↔ ∀ part ∈ parts, ∀ c ∈ part, unescaped c = true := by
  rw [ReadBack, dispatch_printed_number hne h, dispatch_printed_data hne h]
  constructor
  · intro hback part hpart c hc
    have hsame : joined (parts.map printed) = joined parts := Handler.onRequestSegNumber.inj hback.1
    by_contra hesc
    have hmem : '%' ∈ printed part :=
      percent_mem_componentUri (h part hpart).percent hc (toNat_lt_of_urlChar ((h part hpart).url c hc))
        (Bool.not_eq_true _ ▸ hesc)
    have hjoined := mem_joined_of_mem (List.mem_map_of_mem hpart) hmem
    rw [hsame] at hjoined
    rcases mem_joined hjoined with hslash | ⟨other, hother, hpercent⟩
    · exact absurd hslash (by decide)
    · exact (h other hother).percent hpercent
  · intro hall
    have hsame : parts.map printed = parts := by
      calc parts.map printed
          = parts.map id := List.map_congr_left fun part hpart =>
              componentUri_unescape (hall part hpart) (h part hpart).notPeriods
        _ = parts := List.map_id parts
    have hrequest := packetRequest_segName (joined parts) i
    rw [hsame]
    refine ⟨rfl, _, _, rfl, hrequest.cut.1, ?_⟩
    rw [segNo_of_packetRequest hrequest (by omega), Nat.mod_eq_of_lt (by omega)]

theorem component_tilde : Component "a~b".toList :=
  ⟨List.all_eq_true.1 (by decide), 'a', by decide, by decide⟩

theorem naming_dash : ReadBack (joined ["a-b".toList]) 0 := by
  have hdash : Component "a-b".toList := ⟨List.all_eq_true.1 (by decide), 'a', by decide, by decide⟩
  have hkept : ∀ c ∈ "a-b".toList, unescaped c = true := List.all_eq_true.1 (by decide)
  apply (naming_iff (by decide) _ (by decide)).2
  · intro part hpart
    rw [List.mem_singleton.1 hpart]
    exact hkept
  · intro part hpart
    rw [List.mem_singleton.1 hpart]
    exact hdash

/-- the tilde is escaped on the way, and the server looks for another file -/
theorem tilde_is_escaped :
    Component "a~b".toList ∧ dispatch (printedName (.number "a~b".toList)) = .onRequestSegNumber "a%7Eb".toList ∧
      ¬ ReadBack "a~b".toList 0 := by
  have hnumber : dispatch (printedName (.number "a~b".toList)) = .onRequestSegNumber "a%7Eb".toList := by decide
  refine ⟨component_tilde, hnumber, fun hback => ?_⟩
  have hname := hnumber.symm.trans hback.1
  exact absurd hname (by decide)

end NdnDash.Ndn
