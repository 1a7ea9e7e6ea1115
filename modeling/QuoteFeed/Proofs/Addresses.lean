import QuoteFeed.Endpoint
import QuoteFeed.Proofs.Splitting
import Mathlib.Data.List.TakeWhile

/-!
The grammar of addresses. A text is read as an address just in case the grammar derives it, and then the address is
the one that the grammar names; what is written is read back. The reader is followed by the positions at which it
cuts the text as well, and none of them lies outside.
-/

namespace QuoteFeed

namespace Endpoint

/-- What an authority consists of: a host, in brackets or without, and what stands behind the colon after it, if there
is one. Without brackets this is the last colon. -/
inductive Divides : Octets → Octets → Octets → Prop
  | bracketed {host : Octets} : Ascii.closeBracket ∉ host →
      Divides (Ascii.openBracket :: (host ++ [Ascii.closeBracket])) host []
  | bracketedPort {host port : Octets} : Ascii.closeBracket ∉ host →
      Divides (Ascii.openBracket :: (host ++ Ascii.closeBracket :: Ascii.colon :: port)) host port
  | plain {host : Octets} : host.head? ≠ some Ascii.openBracket → Ascii.colon ∉ host → Divides host host []
  | plainPort {host port : Octets} : (host ++ Ascii.colon :: port).head? ≠ some Ascii.openBracket →
      Ascii.colon ∉ port → Divides (host ++ Ascii.colon :: port) host port

/-- A port in decimal digits, with zeros in front or without. -/
structure IsPortText (port : Octets) : Prop where
  ne_nil : port ≠ []
  digits : ∀ b ∈ port, isDigit b = true
  low : 1 ≤ digitsValue port
  high : digitsValue port ≤ 65535

/-- The address of some parts, of which the port and the path may be missing. -/
def ofParts (tls : Bool) (host port path : Octets) : Endpoint where
  tls := tls
  host := host
  port := if port = [] then octets (if tls then "443" else "80") else port
  target := if path = [] then octets "/" else path

/-- The grammar of addresses, each with what it stands for. -/
inductive Spells : Octets → Endpoint → Prop
  | address {scheme authority path host port : Octets} {tls : Bool} :
      scheme.lower = octets (if tls then "wss" else "ws") → Ascii.slash ∉ authority →
      (path = [] ∨ path.head? = some Ascii.slash) → Divides authority host port → host ≠ [] →
      (port = [] ∨ IsPortText port) →
      Spells (scheme ++ (octets "://" ++ (authority ++ path))) (ofParts tls host port path)

variable {url authority host port scheme path : Octets} {e : Endpoint} {tls : Bool}

theorem isPort_iff : isPort port = true ↔ IsPortText port := by
  simp only [isPort, Bool.and_eq_true, decide_eq_true_eq, List.all_eq_true, Bool.not_eq_true', List.isEmpty_eq_false_iff]
  constructor
  · rintro ⟨⟨⟨hne, hdigits⟩, hlow⟩, hhigh⟩
    exact ⟨hne, hdigits, hlow, hhigh⟩
  · rintro ⟨hne, hdigits, hlow, hhigh⟩
    exact ⟨⟨⟨hne, hdigits⟩, hlow⟩, hhigh⟩

theorem IsPortText.notMem {b : UInt8} (h : IsPortText port) (hb : isDigit b = false) : b ∉ port := fun hmem =>
  Bool.noConfusion (hb.symm.trans (h.digits b hmem))

theorem defaultPort_eq (tls : Bool) : defaultPort tls = octets (if tls then "443" else "80") := by
  cases tls <;> rfl

theorem isPortText_default (tls : Bool) : IsPortText (octets (if tls then "443" else "80")) := by
  cases tls <;> exact isPort_iff.mp (by decide +kernel)

/-! ### What is read -/

theorem splitAuthority_of_head (h : authority.head? ≠ some Ascii.openBracket) : splitAuthority url authority =
    .ok ((Octets.splitLast? Ascii.colon authority).getD (authority, [])) := by
  unfold splitAuthority
  split
  next => exact absurd rfl h
  next => rfl

theorem splitAuthority_bracket (url inner : Octets) : splitAuthority url (Ascii.openBracket :: inner) =
    match Octets.splitFirst? [Ascii.closeBracket] inner with
    | none => .error (.unclosedHost url)
    | some (host, []) => .ok (host, [])
    | some (host, Ascii.colon :: port) => .ok (host, port)
    | some _ => .error (.malformedAuthority url) := rfl

theorem splitAuthority_eq_ok_iff : splitAuthority url authority = .ok (host, port) ↔ Divides authority host port := by
  constructor
  · intro h
    unfold splitAuthority at h
    split at h
    next inner =>
      split at h
      next => cases h
      next hfirst =>
        cases h
        obtain ⟨rfl, hno⟩ := Octets.splitFirst?_eq_some_iff.mp hfirst
        exact .bracketed hno
      next hfirst =>
        cases h
        obtain ⟨rfl, hno⟩ := Octets.splitFirst?_eq_some_iff.mp hfirst
        exact .bracketedPort hno
      next => cases h
    next hplain =>
      have hhead : authority.head? ≠ some Ascii.openBracket := by
        intro hhead
        obtain ⟨inner, rfl⟩ := List.head?_eq_some_iff.mp hhead
        exact hplain inner rfl
      cases hlast : Octets.splitLast? Ascii.colon authority with
      | none =>
        rw [hlast] at h
        cases h
        exact .plain hhead (Octets.splitLast?_eq_none_iff.mp hlast)
      | some parts =>
        rw [hlast] at h
        cases h
        obtain ⟨rfl, hno⟩ := Octets.splitLast?_eq_some_iff.mp hlast
        exact .plainPort hhead hno
  · intro h
    have hcut : Ascii.closeBracket ∉ host → ∀ rest,
        Octets.splitFirst? [Ascii.closeBracket] (host ++ Ascii.closeBracket :: rest) = some (host, rest) :=
      fun hno rest => Octets.splitFirst?_eq_some_iff.mpr ⟨rfl, hno⟩
    cases h with
    | bracketed hno => rw [splitAuthority_bracket, hcut hno]
    | bracketedPort hno =>
      rw [splitAuthority_bracket, hcut hno]
      rfl
    | plain hhead hno => rw [splitAuthority_of_head hhead, Octets.splitLast?_eq_none_iff.mpr hno, Option.getD_none]
    | plainPort hhead hno =>
      rw [splitAuthority_of_head hhead, Octets.splitLast?_eq_some_iff.mpr ⟨rfl, hno⟩, Option.getD_some]

theorem tlsOfScheme?_eq_some_iff :
    tlsOfScheme? scheme = some tls ↔ scheme = octets (if tls then "wss" else "ws") := by
  have hne : octets "ws" ≠ octets "wss" := by decide +kernel
  unfold tlsOfScheme?
  split
  next hwss =>
    subst hwss
    cases tls <;> simp [hne.symm]
  next hwss =>
    split
    next hws =>
      subst hws
      cases tls <;> simp [hne]
    next hws => cases tls <;> simp [hwss, hws]

/-- How an address is read: cut by cut, and then what the parts come to. -/
theorem parse_eq (url : Octets) : parse url =
    match Octets.splitFirst? (octets "://") url with
    | none => .error (.noScheme url)
    | some (scheme, rest) =>
      match tlsOfScheme? scheme.lower with
      | none => .error (.unsupportedScheme scheme.lower)
      | some tls =>
        match splitAuthority url (rest.takeWhile (· ≠ Ascii.slash)) with
        | .error e => .error e
        | .ok (host, port) =>
          if host = [] then .error (.noHost url)
          else if port = [] ∨ isPort port = true then
            .ok (ofParts tls host port (rest.dropWhile (· ≠ Ascii.slash)))
          else .error (.invalidPort port url) := by
  unfold parse
  cases hfirst : Octets.splitFirst? (octets "://") url with
  | none => rfl
  | some parts =>
    dsimp only
    cases htls : tlsOfScheme? (Octets.lower parts.1) with
    | none => rfl
    | some tls =>
      dsimp only
      cases hsplit : splitAuthority url (parts.2.takeWhile (· ≠ Ascii.slash)) with
      | error e => rfl
      | ok divided =>
        have hgate : (!divided.2.isEmpty && !isPort divided.2) = true ↔ ¬(divided.2 = [] ∨ isPort divided.2 = true) := by
          simp
        simp only [bind, Except.bind, List.isEmpty_iff, hgate]
        by_cases hhost : divided.1 = []
        · rw [if_pos hhost, if_pos hhost]
          rfl
        · rw [if_neg hhost, if_neg hhost]
          by_cases hport : divided.2 = [] ∨ isPort divided.2 = true
          · rw [if_neg (not_not.mpr hport), if_pos hport, ofParts, defaultPort_eq]
            rfl
          · rw [if_pos hport, if_neg hport]
            rfl

/-- What the grammar derives is read as what it stands for. -/
theorem Spells.parse (h : Spells url e) : parse url = .ok e := by
  cases h with
  | @address scheme authority path host port tls hscheme hslash hpath hdivides hhost hport =>
    -- the text is cut at the first mark of a scheme, and no scheme has a colon in front of it
    have hcolon : Ascii.colon ∉ scheme := by
      intro hmem
      have hlower : Ascii.colon ∈ scheme.lower := List.mem_map.mpr ⟨Ascii.colon, hmem, rfl⟩
      rw [hscheme] at hlower
      revert hlower
      cases tls <;> decide +kernel
    have hcut : Octets.splitFirst? (octets "://") (scheme ++ (octets "://" ++ (authority ++ path))) =
        some (scheme, authority ++ path) := by
      show Octets.splitFirst? (Ascii.colon :: [Ascii.slash, Ascii.slash]) (scheme ++ (Ascii.colon :: _ ++ _)) = _
      exact Octets.splitFirst?_append hcolon
    have hall : authority.all (· ≠ Ascii.slash) = true := by
      refine List.all_eq_true.mpr fun b hb => decide_eq_true fun he => hslash (he ▸ hb)
    have hstop : ∀ b ∈ path.head?, decide (b ≠ Ascii.slash) = false := by
      rintro b hb
      rcases hpath with rfl | hpath
      · cases hb
      · rw [hpath] at hb
        cases hb
        rfl
    rw [parse_eq, hcut]
    dsimp only
    rw [tlsOfScheme?_eq_some_iff.mpr hscheme, takeWhile_append_stop hall hstop, dropWhile_append_stop hall hstop,
      splitAuthority_eq_ok_iff.mpr hdivides]
    dsimp only
    rw [if_neg hhost, if_pos (hport.imp_right isPort_iff.mpr)]

theorem spells_of_parse (h : parse url = .ok e) : Spells url e := by
  rw [parse_eq] at h
  split at h
  next => cases h
  next scheme rest hfirst =>
    split at h
    next => cases h
    next tls htls =>
      split at h
      next => cases h
      next host port hsplit =>
        split at h
        next => cases h
        next hhost =>
          split at h
          next hport =>
            cases h
            rw [Octets.eq_of_splitFirst? hfirst]
            conv => lhs; rw [← List.takeWhile_append_dropWhile (p := (· ≠ Ascii.slash)) (l := rest)]
            refine .address (tlsOfScheme?_eq_some_iff.mp htls) (fun hmem => ?_) ?_ (splitAuthority_eq_ok_iff.mp hsplit)
              hhost (hport.imp_right isPort_iff.mp)
            · simpa using List.mem_takeWhile_imp hmem
            · have hpath := List.head?_dropWhile_not (· ≠ Ascii.slash) rest
              cases hrest : rest.dropWhile (· ≠ Ascii.slash) with
              | nil => exact .inl rfl
              | cons b path =>
                rw [hrest] at hpath
                exact .inr (congrArg some (by simpa using hpath))
          next => cases h

/-- A text is read as an address just in case the grammar derives it, with this address. -/
theorem parse_eq_ok_iff : parse url = .ok e ↔ Spells url e := ⟨spells_of_parse, Spells.parse⟩

/-- What is read has a host, a port and a target that starts at the root. -/
theorem Spells.parts (h : Spells url e) :
    e.host ≠ [] ∧ IsPortText e.port ∧ e.target.head? = some Ascii.slash := by
  cases h with
  | @address scheme authority path host port tls _ _ hpath _ hhost hport =>
    refine ⟨hhost, ?_, ?_⟩
    · dsimp only [ofParts]
      split
      next => exact isPortText_default tls
      next hne => exact hport.resolve_left hne
    · dsimp only [ofParts]
      split
      next => rfl
      next hne => exact hpath.resolve_left hne

/-! ### Where it is cut -/

namespace ByPosition

/-- Host and port of an authority, cut at positions. It comes to nothing if one of them is outside. -/
def splitAuthority (url authority : Octets) : Option (Except Error (Octets × Octets)) :=
  if authority[0]? = some Ascii.openBracket then
    match Octets.find? [Ascii.closeBracket] authority with
    | none => some (.error (.unclosedHost url))
    | some 0 => none
    | some (close + 1) => do
      let host ← authority.part? 1 (some close)
      if close + 2 < authority.length then
        let mark ← authority[close + 2]?
        if mark = Ascii.colon then pure (.ok (host, ← authority.part? (close + 3) none))
        else pure (.error (.malformedAuthority url))
      else pure (.ok (host, []))
  else
    match Octets.findLast? Ascii.colon authority with
    | none => do pure (.ok (← authority.part? 0 none, []))
    | some colon => do pure (.ok (← authority.part? 0 (some colon), ← authority.part? (colon + 1) none))

/-- The number of 32 bits at the front of a text, with the position behind its digits. -/
def number? (s : Octets) : Option (Nat × Nat) :=
  let digits := s.takeWhile isDigit
  if digits = [] ∨ 4294967295 < digitsValue digits then none else some (digitsValue digits, digits.length)

/-- Whether a text is a port: one number that ends where the text ends. -/
def isPort (port : Octets) : Bool :=
  match number? port with
  | none => false
  | some (n, stop) => stop = port.length && n ≠ 0 && n ≤ 65535

/-- Authority and path of what stands behind a scheme, cut at positions. It comes to nothing if one of them is outside. -/
def splitPath (rest : Octets) : Option (Octets × Octets) :=
  match Octets.find? [Ascii.slash] rest with
  | none => do pure (← Octets.part? rest 0 none, [])
  | some slash => do pure (← Octets.part? rest 0 (some slash), ← Octets.part? rest slash none)

/-- Reads an address, cut at positions. It comes to nothing if one of them is outside. -/
def parse (url : Octets) : Option (Except Error Endpoint) :=
  match Octets.find? (octets "://") url with
  | none => some (.error (.noScheme url))
  | some separator => do
    let scheme ← url.part? 0 (some separator)
    match tlsOfScheme? scheme.lower with
    | none => pure (.error (.unsupportedScheme scheme.lower))
    | some tls =>
      let rest ← url.part? (separator + 3) none
      let (authority, path) ← splitPath rest
      match ← splitAuthority url authority with
      | .error e => pure (.error e)
      | .ok (host, port) =>
        if host = [] then pure (.error (.noHost url))
        else if port = [] ∨ isPort port = true then pure (.ok (ofParts tls host port path))
        else pure (.error (.invalidPort port url))

/-- A number of 32 bits that ends the text is a port just in case the text is one. -/
theorem isPort_eq (port : Octets) : isPort port = Endpoint.isPort port := by
  rw [Bool.eq_iff_iff, isPort_iff]
  constructor
  · intro h
    unfold isPort at h
    split at h
    next => cases h
    next n stop hnumber =>
      unfold number? at hnumber
      dsimp only at hnumber
      split at hnumber
      next => cases hnumber
      next hdigits =>
        cases hnumber
        simp only [Bool.and_eq_true, decide_eq_true_eq] at h
        obtain ⟨⟨hstop, hlow⟩, hhigh⟩ := h
        have hall : port.takeWhile isDigit = port := (List.takeWhile_prefix _).eq_of_length hstop
        rw [hall] at hdigits hlow hhigh
        exact ⟨fun hnil => hdigits (.inl hnil), List.takeWhile_eq_self_iff.mp hall, Nat.pos_of_ne_zero hlow, hhigh⟩
  · rintro ⟨hne, hdigits, hlow, hhigh⟩
    have hall : port.takeWhile isDigit = port := List.takeWhile_eq_self_iff.mpr hdigits
    have hsmall : ¬(port = [] ∨ 4294967295 < digitsValue port) := by
      rintro (hnil | hlarge)
      · exact hne hnil
      · omega
    have hnumber : number? port = some (digitsValue port, port.length) := by
      unfold number?
      rw [hall]
      exact if_neg hsmall
    have hzero : digitsValue port ≠ 0 := by omega
    simp [isPort, hnumber, hzero, hhigh]

theorem splitAuthority_eq (url authority : Octets) :
    splitAuthority url authority = some (Endpoint.splitAuthority url authority) := by
  unfold splitAuthority
  split
  next hhead =>
    obtain ⟨inner, rfl⟩ : ∃ inner, authority = Ascii.openBracket :: inner := by
      rw [← List.head?_eq_getElem?] at hhead
      exact List.head?_eq_some_iff.mp hhead
    -- positions count the opening bracket, parts do not
    have hfind : Octets.find? [Ascii.closeBracket] (Ascii.openBracket :: inner) =
        (Octets.find? [Ascii.closeBracket] inner).map (· + 1) := Octets.find?_cons _ _ _
    rw [splitAuthority_bracket, Octets.splitFirst?_eq_map, hfind]
    cases hclose : Octets.find? [Ascii.closeBracket] inner with
    | none => rfl
    | some close =>
      have hhost : Octets.part? (Ascii.openBracket :: inner) 1 (some close) = some (inner.take close) :=
        if_pos (Nat.succ_le_succ (Nat.zero_le _))
      dsimp only [Option.map_some, List.length_singleton]
      rw [hhost, Option.bind_eq_bind, Option.bind_some]
      cases hrest : inner.drop (close + 1) with
      | nil =>
        have hend : inner.length ≤ close + 1 := List.drop_eq_nil_iff.mp hrest
        rw [if_neg (by rw [List.length_cons]; omega)]
        rfl
      | cons mark port =>
        have hlength : close + 1 < inner.length := by
          have hlength := congrArg List.length hrest
          rw [List.length_drop, List.length_cons] at hlength
          omega
        have hmark : (Ascii.openBracket :: inner)[close + 2]? = some mark := by
          have hfirst : (inner.drop (close + 1))[0]? = some mark := by rw [hrest]; rfl
          rwa [List.getElem?_drop] at hfirst
        have hport : Octets.part? (Ascii.openBracket :: inner) (close + 3) none = some port := by
          rw [Octets.part?_rest (by rw [List.length_cons]; omega), List.drop_succ_cons, ← List.tail_drop, hrest]
          rfl
        rw [if_pos (by rw [List.length_cons]; omega), hmark, Option.bind_eq_bind, Option.bind_some]
        by_cases hcolon : mark = Ascii.colon
        · rw [if_pos hcolon, hport, hcolon]
          rfl
        · rw [if_neg hcolon]
          split
          next he => cases he
          next he => cases he
          next he =>
            cases he
            exact absurd rfl hcolon
          next => rfl
  next hhead =>
    rw [splitAuthority_of_head (List.head?_eq_getElem?.trans_ne hhead), Octets.splitLast?_eq_map]
    cases hcolon : Octets.findLast? Ascii.colon authority with
    | none =>
      dsimp only
      rw [Octets.part?_all]
      rfl
    | some colon =>
      have hlt := Octets.lt_of_findLast? hcolon
      dsimp only
      rw [Octets.part?_front, Octets.part?_rest hlt]
      rfl

theorem splitPath_eq (rest : Octets) :
    splitPath rest = some (rest.takeWhile (· ≠ Ascii.slash), rest.dropWhile (· ≠ Ascii.slash)) := by
  unfold splitPath
  cases hslash : Octets.find? [Ascii.slash] rest with
  | none =>
    obtain ⟨htake, hdrop⟩ := Octets.takeWhile_of_find?_eq_none hslash
    dsimp only
    rw [Octets.part?_all, htake, hdrop]
    rfl
  | some slash =>
    have hle := Octets.add_length_le_of_find? hslash
    obtain ⟨htake, hdrop⟩ := Octets.takeWhile_of_find? hslash
    dsimp only
    rw [Octets.part?_front, Octets.part?_rest (by omega), htake, hdrop]
    rfl

/-- Whatever the text, it is cut within its bounds, and read as it is read part by part. -/
theorem parse_eq (url : Octets) : parse url = some (Endpoint.parse url) := by
  rw [Endpoint.parse_eq, Octets.splitFirst?_eq_map]
  unfold parse
  cases hseparator : Octets.find? (octets "://") url with
  | none => rfl
  | some separator =>
    have hle : separator + 3 ≤ url.length := Octets.add_length_le_of_find? hseparator
    have hlength : (octets "://").length = 3 := rfl
    simp only [Option.map_some, hlength, Octets.part?_front, Option.bind_eq_bind, Option.bind_some]
    cases htls : tlsOfScheme? (Octets.lower (url.take separator)) with
    | none => rfl
    | some tls =>
      simp only [Octets.part?_rest hle, splitPath_eq, splitAuthority_eq, isPort_eq, Option.bind_some]
      cases hsplit : Endpoint.splitAuthority url ((url.drop (separator + 3)).takeWhile (· ≠ Ascii.slash)) with
      | error e => rfl
      | ok divided =>
        dsimp only
        split
        next => rfl
        next =>
          split
          next => rfl
          next => rfl

end ByPosition

/-! ### What is written -/

/-- The parts of an address stand where they are looked for: the host has no mark that ends it, but for colons. -/
structure IsProper (e : Endpoint) : Prop where
  host : e.host ≠ []
  slash : Ascii.slash ∉ e.host
  openBracket : Ascii.openBracket ∉ e.host
  closeBracket : Ascii.closeBracket ∉ e.host
  port : IsPortText e.port
  target : e.target.head? = some Ascii.slash

/-- The host of an address as it is written: in brackets if it has a colon. -/
def writtenHost (host : Octets) : Octets :=
  if host.contains Ascii.colon then Ascii.openBracket :: host ++ [Ascii.closeBracket] else host

theorem url_eq (e : Endpoint) : e.url = octets (if e.tls then "wss" else "ws") ++
    (octets "://" ++ ((writtenHost e.host ++ Ascii.colon :: e.port) ++ e.target)) := by
  have hscheme : (if e.tls then octets "wss://" else octets "ws://") =
      octets (if e.tls then "wss" else "ws") ++ octets "://" := by
    cases e.tls <;> rfl
  rw [url, hscheme]
  simp only [writtenHost, List.append_assoc]

theorem IsProper.divides (h : e.IsProper) : Divides (writtenHost e.host ++ Ascii.colon :: e.port) e.host e.port := by
  unfold writtenHost
  split
  next =>
    have hauthority : Ascii.openBracket :: e.host ++ [Ascii.closeBracket] ++ Ascii.colon :: e.port =
        Ascii.openBracket :: (e.host ++ Ascii.closeBracket :: Ascii.colon :: e.port) := by
      simp
    rw [hauthority]
    exact .bracketedPort h.closeBracket
  next =>
    refine .plainPort (fun hhead => h.openBracket ?_) (h.port.notMem (by decide))
    obtain ⟨b, host, hcons⟩ := List.exists_cons_of_ne_nil h.host
    rw [hcons] at hhead ⊢
    exact Option.some.inj hhead ▸ List.mem_cons_self

/-- The grammar derives what is written. -/
theorem IsProper.spells (h : e.IsProper) : Spells e.url e := by
  have hmarks : Ascii.slash ≠ Ascii.openBracket ∧ Ascii.slash ≠ Ascii.closeBracket ∧ Ascii.slash ≠ Ascii.colon := by
    decide
  have hslash : Ascii.slash ∉ writtenHost e.host ++ Ascii.colon :: e.port := by
    have hport : Ascii.slash ∉ e.port := h.port.notMem (by decide)
    have hhost : Ascii.slash ∉ writtenHost e.host := by
      unfold writtenHost
      split
      next => simp [h.slash, hmarks]
      next => exact h.slash
    simp [hhost, hport, hmarks]
  have htarget : e.target ≠ [] := by
    intro hnil
    have hhead := h.target
    rw [hnil] at hhead
    cases hhead
  have hparts : ofParts e.tls e.host e.port e.target = e := by
    rw [ofParts, if_neg h.port.ne_nil, if_neg htarget]
  have hlower : Octets.lower (octets (if e.tls then "wss" else "ws")) = octets (if e.tls then "wss" else "ws") := by
    cases e.tls <;> decide +kernel
  have hspells : Spells e.url (ofParts e.tls e.host e.port e.target) := by
    rw [url_eq]
    exact .address hlower hslash (.inr h.target) h.divides h.host (.inr h.port)
  rwa [hparts] at hspells

theorem Divides.subset (h : Divides authority host port) : host ⊆ authority := by
  intro b hb
  cases h <;> simp [hb]

/-- What is read is proper, unless its host has a bracket. -/
theorem Spells.proper (h : Spells url e) (hopen : Ascii.openBracket ∉ e.host) (hclose : Ascii.closeBracket ∉ e.host) :
    e.IsProper := by
  obtain ⟨hhost, hport, htarget⟩ := h.parts
  refine ⟨hhost, ?_, hopen, hclose, hport, htarget⟩
  cases h with
  | address _ hslash _ hdivides => exact fun hmem => hslash (hdivides.subset hmem)

/-- A text is read as an address just in case the grammar derives it, and then as the one address that the grammar
gives it; every other text is refused for one of the causes there are, and no part of a text is looked for outside
of it. An address that is read has a host, a port from 1 to 65535 and a target that starts at the root. -/
theorem addresses_recognised (url : Octets) :
    ByPosition.parse url = some (parse url) ∧ (∀ e, parse url = .ok e ↔ Spells url e) ∧
    ∀ e, parse url = .ok e → e.host ≠ [] ∧ IsPortText e.port ∧ e.target.head? = some Ascii.slash :=
  ⟨ByPosition.parse_eq url, fun _ => parse_eq_ok_iff, fun _ h => (spells_of_parse h).parts⟩

/-- An address that is written is read back as it was. So an address that has been read and has no bracket in its
host is read again from what is written for it, and no two such addresses are written alike. -/
theorem addresses_round_trip :
    (∀ e : Endpoint, e.IsProper → parse e.url = .ok e) ∧
    (∀ url e, parse url = .ok e → Ascii.openBracket ∉ e.host → Ascii.closeBracket ∉ e.host →
      parse e.url = parse url) ∧
    ∀ e e' : Endpoint, e.IsProper → e'.IsProper → e.url = e'.url → e = e' := by
  have hback : ∀ e : Endpoint, e.IsProper → parse e.url = .ok e := fun e h => h.spells.parse
  refine ⟨hback, fun url e hurl hopen hclose => ?_, fun e e' h h' hsame => ?_⟩
  · rw [hurl]
    exact hback e ((spells_of_parse hurl).proper hopen hclose)
  · have hread : (.ok e : Except Error Endpoint) = .ok e' := by rw [← hback e h, hsame, hback e' h']
    exact Except.ok.inj hread

/-- A numeric host, a port with a zero in front, and a target that looks like an address itself. -/
def numeric : Endpoint where
  tls := true
  host := octets "::1"
  port := octets "0443"
  target := octets "/ws://[h]:80"

theorem numeric_round_trip : numeric.IsProper ∧ parse numeric.url = .ok numeric := by
  have hproper : numeric.IsProper :=
    ⟨by decide +kernel, by decide +kernel, by decide +kernel, by decide +kernel, isPort_iff.mp (by decide +kernel), rfl⟩
  exact ⟨hproper, addresses_round_trip.1 numeric hproper⟩

end Endpoint

end QuoteFeed
