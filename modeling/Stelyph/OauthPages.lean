import Stelyph.Authorize
import Stelyph.Lib.Html

/-!
# The consent page says what it was given

The login and consent page takes in what a client wrote: its name, its
identifier, scopes and a hint. A browser finds in the text of the page the
tags the server put there and no others, and finds each of these strings
where it belongs, as it was (`consentPage_reads`).
-/

namespace Stelyph

/-! ## The pages -/

def escapeChar : Char → String
  | '&' => "&amp;"
  | '<' => "&lt;"
  | '>' => "&gt;"
  | '"' => "&quot;"
  | '\x27' => "&#x27;"
  | c => c.toString

/-- For element content and quoted values. -/
def escape (s : String) : String := s.toList.foldl (fun out c => out ++ escapeChar c) ""

def pageStyle : String :=
  "
:root \x7b color-scheme: light dark; \x7d
* \x7b box-sizing: border-box; \x7d
body \x7b
  font: 15px/1.5 system-ui, -apple-system, \"Segoe UI\", sans-serif;
  margin: 0; padding: 2rem 1rem;
  display: flex; justify-content: center;
  background: Canvas; color: CanvasText;
\x7d
main \x7b width: 100%; max-width: 26rem; \x7d
h1 \x7b font-size: 1.25rem; margin: 0 0 .25rem; \x7d
.sub \x7b color: GrayText; margin: 0 0 1.5rem; font-size: .9rem; \x7d
.card \x7b
  border: 1px solid color-mix(in srgb, CanvasText 15%, transparent);
  border-radius: 10px; padding: 1.25rem; margin-bottom: 1.25rem;
\x7d
.client \x7b font-weight: 600; \x7d
.client-id \x7b font-family: ui-monospace, monospace; font-size: .8rem;
             color: GrayText; word-break: break-all; \x7d
ul.scopes \x7b margin: .75rem 0 0; padding-left: 1.1rem; \x7d
ul.scopes li \x7b margin: .2rem 0; \x7d
label \x7b display: block; margin: .85rem 0 .3rem; font-weight: 500; \x7d
input[type=text], input[type=password] \x7b
  width: 100%; padding: .55rem .65rem; font-size: 1rem;
  border: 1px solid color-mix(in srgb, CanvasText 25%, transparent);
  border-radius: 6px; background: Field; color: FieldText;
\x7d
.actions \x7b display: flex; gap: .6rem; margin-top: 1.25rem; \x7d
button \x7b flex: 1; padding: .6rem; font-size: 1rem; font-weight: 500;
         border-radius: 6px; cursor: pointer; border: 1px solid transparent; \x7d
button.primary \x7b background: AccentColor; color: AccentColorText; \x7d
button.secondary \x7b background: transparent; color: CanvasText;
                   border-color: color-mix(in srgb, CanvasText 25%, transparent); \x7d
.error \x7b padding: .6rem .75rem; border-radius: 6px; margin-bottom: 1rem;
         background: color-mix(in srgb, #d33 15%, Canvas); color: CanvasText; \x7d
"

/-- An unknown scope is shown as it is. -/
def describeScope (scope : String) : String :=
  if scope = "atproto" then "Know which account you are"
  else if scope = "transition:generic" then "Read and write your posts, follows, likes, and profile"
  else if scope = "transition:chat.bsky" then "Read and send your direct messages"
  else if scope = "transition:email" then "See your email address"
  else scope

def pageStart : String :=
  "<!doctype html>
<html lang=\"en\">
<head>
<meta charset=\"utf-8\">
<meta name=\"viewport\" content=\"width=device-width, initial-scale=1\">
<title>"

def bodyStart : String := "
</head>
<body>
<main>
"

def pageEnd : String := "
</main>
</body>
</html>"

/-- What the two pages have in common. -/
def page (title body : String) : String :=
  pageStart ++ title ++ "</title>" ++ "\n<style>" ++ pageStyle ++ "</style>" ++ bodyStart ++ body
    ++ pageEnd

def scopeItem (scope : String) : String := "<li>" ++ escape (describeScope scope) ++ "</li>"

def errorStart : String := "<div class=\"error\">"

def errorBlock (e : String) : String := errorStart ++ escape e ++ "</div>"

def heading : String :=
  "  <h1>Authorize application</h1>
  <p class=\"sub\">Sign in to grant access to your account.</p>
  "

def formStart : String := "
  <form method=\"post\" action=\"/oauth/authorize\" autocomplete=\"on\">
    <input type=\"hidden\" name=\"request_uri\" value=\""

def clientStart : String := "
    <div class=\"card\">
      <div class=\"client\">"

def clientIdStart : String := "</div>
      <div class=\"client-id\">"

def scopesStart : String := "</div>
      <ul class=\"scopes\">"

def loginStart : String := "</ul>
    </div>
    <div class=\"card\">
      <label for=\"username\">Handle or email</label>
      <input id=\"username\" name=\"username\" type=\"text\" autocomplete=\"username\"
             autocapitalize=\"none\" autocorrect=\"off\" spellcheck=\"false\"
             required value=\""

def loginEnd : String := "
      <label for=\"password\">Password</label>
      <input id=\"password\" name=\"password\" type=\"password\"
             autocomplete=\"current-password\" required>
      <div class=\"actions\">
        <button class=\"secondary\" type=\"submit\" name=\"action\" value=\"deny\">Deny</button>
        <button class=\"primary\" type=\"submit\" name=\"action\" value=\"accept\">Authorize</button>
      </div>
    </div>
  </form>"

/-- The consent page (`html::authorize_page`): fixed markup, with each
text escaped where it is put in. -/
def ConsentPage.html (p : ConsentPage) : String :=
  page ("Authorize " ++ escape p.clientName) <|
    heading ++ (p.error.map errorBlock).getD "" ++ formStart ++ escape p.requestUri ++ "\">"
      ++ clientStart ++ escape p.clientName ++ clientIdStart ++ escape p.clientId ++ scopesStart
      ++ String.join (p.scopes.map scopeItem) ++ loginStart ++ escape (p.loginHint.getD "")
      ++ "\">" ++ loginEnd

def messageStart : String := "</h1>
  <div class=\"card\">"

/-- `html::error_page`. -/
def errorPage (title message : String) : String :=
  page (escape title) <|
    "  <h1>" ++ escape title ++ messageStart ++ escape message ++ "</div>"

/-- The text of the page, where the answer is one. -/
def AuthorizeResponse.html : AuthorizeResponse → Option String
  | .page p => some p.html
  | .errorPage _ title message => some (Stelyph.errorPage title message)
  | .redirect _ => none
  | .granted _ _ => none

/-! ## What the pages say -/

open Html (Token TextKind State Reads)

def el (name : String) (attrs : List (String × String)) : Token :=
  .startTag name.toList (attrs.map fun a => (a.1.toList, a.2.toList))

def endOf (name : String) : Token := .endTag name.toList

def txt (s : String) : Token := .text .data s.toList

/-- A string as a text of the page. -/
def shown (s : String) : List Token := Html.texts .data (Html.newlines s.toList)

/-- A string as a title or a value. -/
def fieldText (s : String) : List Char := Html.nulls (Html.newlines s.toList)

def headTokens : List Token :=
  [.doctype "html".toList, txt "\n", el "html" [("lang", "en")], txt "\n", el "head" [], txt "\n",
    el "meta" [("charset", "utf-8")], txt "\n",
    el "meta" [("name", "viewport"), ("content", "width=device-width, initial-scale=1")], txt "\n",
    el "title" []]

def bodyTokens : List Token :=
  [txt "\n", endOf "head", txt "\n", el "body" [], txt "\n", el "main" []]

def pageTokens (title : String) (body : List Token) : List Token :=
  headTokens ++ Html.texts .title (fieldText title) ++ [endOf "title", txt "\n", el "style" []]
    ++ [.text .style pageStyle.toList, endOf "style"] ++ bodyTokens ++ body
    ++ [txt "\n", endOf "main", txt "\n", endOf "body", txt "\n", endOf "html"]

/-- An input of the page's form. -/
def hiddenInput (value : List Char) : Token :=
  .startTag "input".toList [("type".toList, "hidden".toList),
    ("name".toList, "request_uri".toList), ("value".toList, value)]

def usernameInput (value : List Char) : Token :=
  .startTag "input".toList [("id".toList, "username".toList), ("name".toList, "username".toList),
    ("type".toList, "text".toList), ("autocomplete".toList, "username".toList),
    ("autocapitalize".toList, "none".toList), ("autocorrect".toList, "off".toList),
    ("spellcheck".toList, "false".toList), ("required".toList, []), ("value".toList, value)]

def headingTokens : List Token :=
  [txt "\n  ", el "h1" [], txt "Authorize application", endOf "h1", txt "\n  ",
    el "p" [("class", "sub")], txt "Sign in to grant access to your account.", endOf "p"]

def errorTokens : Option String → List Token
  | none => [txt "\n  \n  "]
  | some e => [txt "\n  ", el "div" [("class", "error")]] ++ shown e ++ [endOf "div", txt "\n  "]

def formTokens : List Token :=
  [el "form" [("method", "post"), ("action", "/oauth/authorize"), ("autocomplete", "on")],
    txt "\n    "]

def clientTokens : List Token :=
  [txt "\n    ", el "div" [("class", "card")], txt "\n      ", el "div" [("class", "client")]]

def scopeTokens (scope : String) : List Token :=
  [el "li" []] ++ shown (describeScope scope) ++ [endOf "li"]

def loginTokens : List Token :=
  [endOf "ul", txt "\n    ", endOf "div", txt "\n    ", el "div" [("class", "card")],
    txt "\n      ", el "label" [("for", "username")], txt "Handle or email", endOf "label",
    txt "\n      "]

def passwordTokens : List Token :=
  [txt "\n      ", el "label" [("for", "password")], txt "Password", endOf "label", txt "\n      ",
    el "input" [("id", "password"), ("name", "password"), ("type", "password"),
      ("autocomplete", "current-password"), ("required", "")], txt "\n      ",
    el "div" [("class", "actions")], txt "\n        ",
    el "button" [("class", "secondary"), ("type", "submit"), ("name", "action"), ("value", "deny")],
    txt "Deny", endOf "button", txt "\n        ",
    el "button" [("class", "primary"), ("type", "submit"), ("name", "action"), ("value", "accept")],
    txt "Authorize", endOf "button", txt "\n      ", endOf "div", txt "\n    ", endOf "div",
    txt "\n  ", endOf "form"]

/-- What a browser should find in the consent page: the server's tags, and
each text as it was given, as text or as the value of an attribute. -/
def ConsentPage.tokens (p : ConsentPage) : List Token :=
  pageTokens ("Authorize " ++ p.clientName) <|
    headingTokens ++ errorTokens p.error ++ formTokens ++ [hiddenInput (fieldText p.requestUri)]
      ++ clientTokens ++ shown p.clientName
      ++ [endOf "div", txt "\n      ", el "div" [("class", "client-id")]] ++ shown p.clientId
      ++ [endOf "div", txt "\n      ", el "ul" [("class", "scopes")]]
      ++ p.scopes.flatMap scopeTokens ++ loginTokens
      ++ [usernameInput (fieldText (p.loginHint.getD ""))] ++ passwordTokens

def errorPageTokens (title message : String) : List Token :=
  pageTokens title <|
    [txt "\n  ", el "h1" []] ++ shown title
      ++ [endOf "h1", txt "\n  ", el "div" [("class", "card")]] ++ shown message ++ [endOf "div"]

def AuthorizeResponse.tokens : AuthorizeResponse → Option (List Token)
  | .page p => some p.tokens
  | .errorPage _ title message => some (errorPageTokens title message)
  | .redirect _ => none
  | .granted _ _ => none

/-! ## Escaped text -/

/-- `escape`, character by character. -/
def spelled (c : Char) : List Char := (escapeChar c).toList

theorem toList_foldl_escape : ∀ (cs : List Char) (out : String),
    (cs.foldl (fun out c => out ++ escapeChar c) out).toList = out.toList ++ cs.flatMap spelled
  | [], out => (List.append_nil _).symm
  | c :: cs, out => by
      rw [List.foldl_cons, toList_foldl_escape cs, String.toList_append, List.append_assoc]
      rfl

theorem toList_escape (s : String) : (escape s).toList = s.toList.flatMap spelled := by
  rw [escape, toList_foldl_escape]
  rfl

/-- The five that matter. -/
def specials : List Char := ['&', '<', '>', '"', '\x27']

theorem spelled_of_not_mem {c : Char} (h : c ∉ specials) : spelled c = [c] := by
  rw [spelled, escapeChar]
  · exact String.toList_singleton c
  all_goals exact fun hc => h (by rw [hc]; decide)

theorem special_cases {c : Char} (h : c ∈ specials) :
    c = '&' ∨ c = '<' ∨ c = '>' ∨ c = '"' ∨ c = '\x27' := by
  simpa only [specials, List.mem_cons, List.not_mem_nil, or_false] using h

theorem spelled_special {c : Char} (h : c ∈ specials) :
    '\r' ∉ spelled c ∧ spelled c = '&' :: (spelled c).tail := by
  rcases special_cases h with rfl | rfl | rfl | rfl | rfl <;> decide

theorem spells_spelled {N : Html.Names} (hN : N.Laws) (inValue : Bool) (c : Char) :
    Html.Spells N inValue c (spelled c) := by
  by_cases hc : c ∈ specials
  · rcases special_cases hc with rfl | rfl | rfl | rfl | rfl
    · rw [show spelled '&' = ['&', 'a', 'm', 'p', ';'] by decide]
      exact Html.spells_named hN ['m', 'p'] (by decide) hN.amp
    · rw [show spelled '<' = ['&', 'l', 't', ';'] by decide]
      exact Html.spells_named hN ['t'] (by decide) hN.lt
    · rw [show spelled '>' = ['&', 'g', 't', ';'] by decide]
      exact Html.spells_named hN ['t'] (by decide) hN.gt
    · rw [show spelled '"' = ['&', 'q', 'u', 'o', 't', ';'] by decide]
      exact Html.spells_named hN ['u', 'o', 't'] (by decide) hN.quot
    · rw [show spelled '\x27' = ['&', '#', 'x', '2', '7', ';'] by decide]
      exact fun rest => rfl
  · rw [spelled_of_not_mem hc]
    exact Html.spells_self fun h => hc (by rw [h]; decide)

theorem not_mem_spelled {x : Char} (hx : x ∈ specials)
    (hfree : specials.all (fun c => !(spelled c).contains x) = true) (c : Char) :
    x ∉ spelled c := by
  by_cases hc : c ∈ specials
  · have hcontains := List.all_eq_true.mp hfree c hc
    simpa only [Bool.not_eq_true', List.contains_eq_mem, decide_eq_false_iff_not] using hcontains
  · rw [spelled_of_not_mem hc]
    exact fun h => hc (List.mem_singleton.mp h ▸ hx)

theorem spelling_spelled {N : Html.Names} (hN : N.Laws) : Html.Spelling N spelled where
  spells := spells_spelled hN
  cr := by decide
  lf := by decide
  lines c hr hn := by
    by_cases hc : c ∈ specials
    · exact ⟨(spelled_special hc).1, '&', _, (spelled_special hc).2, by decide⟩
    · rw [spelled_of_not_mem hc]
      exact ⟨fun h => hr (List.mem_singleton.mp h).symm, c, [], rfl, hn⟩
  null c := by
    by_cases hc : c ∈ specials
    · rcases special_cases hc with rfl | rfl | rfl | rfl | rfl <;> decide
    · rw [spelled_of_not_mem hc]
      by_cases h0 : c = '\x00'
      · rw [h0]
        decide
      · rw [if_neg h0, spelled_of_not_mem hc, Html.nulls, List.map_singleton, if_neg h0]
  tagFree := not_mem_spelled (by decide) (by decide)
  quoteFree := not_mem_spelled (by decide) (by decide)

/-! ## The pages, piece by piece -/

theorem toList_literal {literal : String} {cs : List Char} (h : literal = String.ofList cs) :
    literal.toList = cs := by
  rw [h, String.toList_ofList]

def behindHeading : State := .data [' ', ' ', '\n']

def hiddenTag : Html.Tag :=
  ⟨false, "input".toList,
    [("type".toList, "hidden".toList), ("name".toList, "request_uri".toList)]⟩

def usernameTag : Html.Tag :=
  ⟨false, "input".toList,
    [("id".toList, "username".toList), ("name".toList, "username".toList),
      ("type".toList, "text".toList), ("autocomplete".toList, "username".toList),
      ("autocapitalize".toList, "none".toList), ("autocorrect".toList, "off".toList),
      ("spellcheck".toList, "false".toList), ("required".toList, [])]⟩

/-- A text that is the same in every page, read from one state to the other,
and what a browser finds in it. -/
structure Piece (text : String) (start stop : State) (tokens : List Token) : Type where
  reads : Html.run start text.toList = some (stop, tokens) ∧ '\r' ∉ text.toList
    ∧ tokens.all Token.isPlain = true

theorem Piece.saying {N : Html.Names} {text : String} {start stop : State} {tokens : List Token}
    (p : Piece text start stop tokens) : Html.Says N start text.toList stop tokens :=
  Html.says_literal p.reads

def pageStartPiece : Piece pageStart (.data []) (.special .title "title".toList []) headTokens where
  reads := by
    rw [pageStart, toList_literal rfl]
    decide +kernel

def styleStartPiece : Piece "\n<style>" (.data []) (.special .style "style".toList [])
    [txt "\n", el "style" []] where
  reads := by decide +kernel

def bodyStartPiece : Piece bodyStart (.data []) (.data ['\n']) bodyTokens where
  reads := by
    rw [bodyStart, toList_literal rfl]
    decide +kernel

def pageEndPiece : Piece pageEnd (.data []) (.data [])
    [txt "\n", endOf "main", txt "\n", endOf "body", txt "\n", endOf "html"] where
  reads := by
    rw [pageEnd, toList_literal rfl]
    decide +kernel

def headingPiece : Piece heading (.data ['\n']) behindHeading headingTokens where
  reads := by
    rw [heading, toList_literal rfl]
    decide +kernel

def errorStartPiece : Piece errorStart behindHeading (.data [])
    [txt "\n  ", el "div" [("class", "error")]] where
  reads := by
    rw [errorStart, toList_literal rfl]
    decide +kernel

def divEndPiece : Piece "</div>" (.data []) (.data []) [endOf "div"] where
  reads := by decide +kernel

def formStartPiece : Piece formStart (.data []) (.value hiddenTag "value".toList [])
    (txt "\n  " :: formTokens) where
  reads := by
    rw [formStart, toList_literal rfl]
    decide +kernel

/-- Without an error the two blank lines are one text. -/
def plainFormPiece : Piece formStart behindHeading (.value hiddenTag "value".toList [])
    (txt "\n  \n  " :: formTokens) where
  reads := by
    rw [formStart, toList_literal rfl]
    decide +kernel

def clientStartPiece : Piece clientStart (.data []) (.data []) clientTokens where
  reads := by
    rw [clientStart, toList_literal rfl]
    decide +kernel

def clientIdStartPiece : Piece clientIdStart (.data []) (.data [])
    [endOf "div", txt "\n      ", el "div" [("class", "client-id")]] where
  reads := by
    rw [clientIdStart, toList_literal rfl]
    decide +kernel

def scopesStartPiece : Piece scopesStart (.data []) (.data [])
    [endOf "div", txt "\n      ", el "ul" [("class", "scopes")]] where
  reads := by
    rw [scopesStart, toList_literal rfl]
    decide +kernel

def itemStartPiece : Piece "<li>" (.data []) (.data []) [el "li" []] where
  reads := by decide +kernel

def itemEndPiece : Piece "</li>" (.data []) (.data []) [endOf "li"] where
  reads := by decide +kernel

def loginStartPiece : Piece loginStart (.data []) (.value usernameTag "value".toList [])
    loginTokens where
  reads := by
    rw [loginStart, toList_literal rfl]
    decide +kernel

def loginEndPiece : Piece loginEnd (.data []) (.data []) passwordTokens where
  reads := by
    rw [loginEnd, toList_literal rfl]
    decide +kernel

def messageHeadingPiece : Piece "  <h1>" (.data ['\n']) (.data []) [txt "\n  ", el "h1" []] where
  reads := by decide +kernel

def messageStartPiece : Piece messageStart (.data []) (.data [])
    [endOf "h1", txt "\n  ", el "div" [("class", "card")]] where
  reads := by
    rw [messageStart, toList_literal rfl]
    decide +kernel

theorem pageStyle_plain : ('<' ∉ pageStyle.toList ∧ '\r' ∉ pageStyle.toList
    ∧ '\x00' ∉ pageStyle.toList) ∧ pageStyle.toList.isEmpty = false := by
  rw [pageStyle, toList_literal rfl]
  decide +kernel

/-! ## The pages, put together -/

/-- The text of either page, cut where the browser's reading turns. -/
theorem toList_page (before title body : String) :
    (page (before ++ escape title) body).toList
      = pageStart.toList ++ (before.toList ++ title.toList.flatMap spelled
        ++ '<' :: '/' :: ("title".toList ++ ['>']) ++ ("\n<style>".toList
          ++ (pageStyle.toList ++ '<' :: '/' :: ("style".toList ++ ['>'])
            ++ (bodyStart.toList ++ body.toList ++ pageEnd.toList)))) := by
  have htitle : '<' :: '/' :: ("title".toList ++ ['>']) = "</title>".toList := by decide
  have hstyle : '<' :: '/' :: ("style".toList ++ ['>']) = "</style>".toList := by decide
  rw [page, htitle, hstyle, ← toList_escape]
  simp only [String.toList_append, List.append_assoc]

section

variable {N : Html.Names} (hN : N.Laws)
include hN

theorem says_shown {rest : List Char} {s : State} {ts : List Token} (text : String)
    (hrest : Html.EndTagFirst rest) (h : Html.Says N (.data []) rest s ts) :
    Html.Says N (.data []) ((escape text).toList ++ rest) s (shown text ++ ts) := by
  rw [toList_escape]
  exact Html.says_text (spelling_spelled hN) hrest h text.toList

/-- Either page. -/
theorem page_reads (before title : String) {body : String} {ts : List Token}
    (hbefore : '<' ∉ before.toList ∧ '&' ∉ before.toList ∧ '\r' ∉ before.toList
      ∧ '\x00' ∉ before.toList)
    (h : Html.Says N (.data ['\n']) body.toList (.data []) ts) :
    Html.tokens N (page (before ++ escape title) body)
      = some (pageTokens (before ++ title) ts) := by
  have hbody := (bodyStartPiece.saying.append h).append pageEndPiece.saying
  have hend : pageEnd.toList ≠ [] := by
    rw [pageEnd, toList_literal rfl]
    exact List.cons_ne_nil _ _
  have hstyle := styleStartPiece.saying.append <|
    Html.says_style "style".toList pageStyle_plain.1 pageStyle_plain.2 (by decide) (by decide) hbody
      (List.append_ne_nil_of_right_ne_nil _ hend)
  have htitle := Html.says_title (spelling_spelled hN) "title".toList hbefore (by decide)
    (by decide) hstyle (List.append_ne_nil_of_left_ne_nil (by decide) _) title.toList
  have hfield : fieldText (before ++ title)
      = before.toList ++ Html.nulls (Html.newlines title.toList) := by
    rw [fieldText, String.toList_append, Html.newlines_plain_append hbefore.2.2.1,
      Html.nulls_append hbefore.2.2.2]
  refine Html.tokens_of_says ?_
  rw [toList_page, pageTokens, hfield, endOf, endOf]
  simpa only [List.append_assoc, List.cons_append, List.nil_append] using
    pageStartPiece.saying.append htitle

theorem says_scopeItem (scope : String) :
    Html.Says N (.data []) (scopeItem scope).toList (.data []) (scopeTokens scope) := by
  have htext := says_shown hN (describeScope scope) ⟨'l', "i>".toList, by decide, by decide⟩
    itemEndPiece.saying
  rw [scopeItem, scopeTokens, String.toList_append, String.toList_append, List.append_assoc,
    List.append_assoc]
  exact itemStartPiece.saying.append htext

theorem says_scopeItems : ∀ scopes : List String,
    Html.Says N (.data []) (String.join (scopes.map scopeItem)).toList (.data [])
      (scopes.flatMap scopeTokens)
  | [] => Html.says_nil _
  | scope :: scopes => by
      rw [List.map_cons, String.join_cons, String.toList_append, List.flatMap_cons]
      exact (says_scopeItem hN scope).append (says_scopeItems scopes)

theorem says_errorBlock (e : String) :
    Html.Says N behindHeading (errorBlock e).toList (.data [])
      ([txt "\n  ", el "div" [("class", "error")]] ++ shown e ++ [endOf "div"]) := by
  have htext := says_shown hN e ⟨'d', "iv>".toList, by decide, by decide⟩ divEndPiece.saying
  rw [errorBlock, String.toList_append, String.toList_append, List.append_assoc, List.append_assoc]
  exact errorStartPiece.saying.append htext

theorem says_error (error : Option String) :
    Html.Says N behindHeading ((error.map errorBlock).getD "" ++ formStart).toList
      (.value hiddenTag "value".toList []) (errorTokens error ++ formTokens) := by
  cases error with
  | none =>
      have hnone : ((none : Option String).map errorBlock).getD "" ++ formStart = formStart :=
        String.empty_append
      rw [hnone]
      exact plainFormPiece.saying
  | some e =>
      have hall := (says_errorBlock hN e).append formStartPiece.saying
      rw [List.append_assoc] at hall
      rw [Option.map_some, Option.getD_some, String.toList_append, errorTokens]
      simpa only [List.append_assoc, List.cons_append, List.nil_append] using hall

theorem says_requestUri (uri : String) :
    Html.Says N (.value hiddenTag "value".toList [])
      ((escape uri).toList ++ "\">".toList ++ clientStart.toList) (.data [])
      (hiddenInput (fieldText uri) :: clientTokens) := by
  rw [toList_escape]
  have hstart : clientStart.toList ≠ [] := by
    rw [clientStart, toList_literal rfl]
    exact List.cons_ne_nil _ _
  exact Html.says_value (spelling_spelled hN) hiddenTag hiddenTag.attrs (fun _ => rfl) (by decide)
    clientStartPiece.saying hstart uri.toList

theorem says_loginHint (hint : String) :
    Html.Says N (.value usernameTag "value".toList [])
      ((escape hint).toList ++ "\">".toList ++ loginEnd.toList) (.data [])
      (usernameInput (fieldText hint) :: passwordTokens) := by
  rw [toList_escape]
  have hend : loginEnd.toList ≠ [] := by
    rw [loginEnd, toList_literal rfl]
    exact List.cons_ne_nil _ _
  exact Html.says_value (spelling_spelled hN) usernameTag usernameTag.attrs (fun _ => rfl)
    (by decide) loginEndPiece.saying hend hint.toList

/-- Behind the heading and an error. -/
theorem says_form (p : ConsentPage) :
    Html.Says N behindHeading
      (((p.error.map errorBlock).getD "" ++ formStart).toList
        ++ ((escape p.requestUri).toList ++ "\">".toList ++ clientStart.toList)
        ++ ((escape p.clientName).toList ++ clientIdStart.toList)
        ++ ((escape p.clientId).toList ++ scopesStart.toList)
        ++ (String.join (p.scopes.map scopeItem)).toList ++ loginStart.toList
        ++ ((escape (p.loginHint.getD "")).toList ++ "\">".toList ++ loginEnd.toList))
      (.data [])
      (errorTokens p.error ++ formTokens
        ++ hiddenInput (fieldText p.requestUri) :: clientTokens
        ++ (shown p.clientName
          ++ [endOf "div", txt "\n      ", el "div" [("class", "client-id")]])
        ++ (shown p.clientId ++ [endOf "div", txt "\n      ", el "ul" [("class", "scopes")]])
        ++ p.scopes.flatMap scopeTokens ++ loginTokens
        ++ usernameInput (fieldText (p.loginHint.getD "")) :: passwordTokens) := by
  -- Each text is read together with the piece behind it, whose end tag ends the text.
  have hname := says_shown hN p.clientName
    ⟨'d', _, by rw [clientIdStart, toList_literal rfl], by decide⟩ clientIdStartPiece.saying
  have hid := says_shown hN p.clientId
    ⟨'d', _, by rw [scopesStart, toList_literal rfl], by decide⟩ scopesStartPiece.saying
  have hclient :=
    ((says_error hN p.error).append (says_requestUri hN p.requestUri)).append hname
  exact (((hclient.append hid).append (says_scopeItems hN p.scopes)).append
    loginStartPiece.saying).append (says_loginHint hN _)

/-- A browser finds in the consent page the tags the server put there and
no others, and the client's texts as they were. -/
theorem consentPage_reads (p : ConsentPage) : Html.tokens N p.html = some p.tokens := by
  have hbody := headingPiece.saying.append (says_form hN p)
  rw [ConsentPage.html, ConsentPage.tokens]
  refine page_reads hN "Authorize " p.clientName (by decide) ?_
  simpa only [String.toList_append, List.append_assoc, List.singleton_append] using hbody

theorem says_message (title message : String) :
    Html.Says N (.data ['\n'])
      ("  <h1>" ++ escape title ++ messageStart ++ escape message ++ "</div>").toList (.data [])
      ([txt "\n  ", el "h1" []] ++ shown title
        ++ [endOf "h1", txt "\n  ", el "div" [("class", "card")]] ++ shown message
        ++ [endOf "div"]) := by
  have htitle := says_shown hN title
    ⟨'h', _, by rw [messageStart, toList_literal rfl], by decide⟩ messageStartPiece.saying
  have hmessage := says_shown hN message ⟨'d', "iv>".toList, by decide, by decide⟩ divEndPiece.saying
  have hall := (messageHeadingPiece.saying.append htitle).append hmessage
  simpa only [String.toList_append, List.append_assoc] using hall

theorem errorPage_reads (title message : String) :
    Html.tokens N (errorPage title message) = some (errorPageTokens title message) := by
  have hread := page_reads hN "" title (by decide) (says_message hN title message)
  rwa [String.empty_append, String.empty_append] at hread

end

/-- In a page that the authorization endpoint answers with, a browser finds
the tags the server put there and no others, and each text it was given as
it was. -/
theorem authorizePages_read {N : Html.Names} (hN : N.Laws) (r : AuthorizeResponse) :
    r.html.bind (Html.tokens N) = r.tokens := by
  cases r with
  | page p =>
      rw [AuthorizeResponse.html, AuthorizeResponse.tokens, Option.bind_some, consentPage_reads hN]
  | errorPage status title message =>
      rw [AuthorizeResponse.html, AuthorizeResponse.tokens, Option.bind_some, errorPage_reads hN]
  | redirect location => rfl
  | granted location record => rfl

/-! ## A client that tries -/

/-- Some of the named references. -/
def sampleReferences : List (List Char × List Char) :=
  [("amp;".toList, ['&']), ("amp".toList, ['&']), ("lt;".toList, ['<']), ("lt".toList, ['<']),
    ("gt;".toList, ['>']), ("gt".toList, ['>']), ("quot;".toList, ['"']), ("quot".toList, ['"']),
    ("not".toList, ['¬']), ("not;".toList, ['¬']), ("notin;".toList, ['∉'])]

def sampleNames : Html.Names where
  lookup name := sampleReferences.lookup name

theorem sampleNames_laws : sampleNames.Laws where
  amp := by decide
  lt := by decide
  gt := by decide
  quot := by decide
  semicolon name c rest := by
    have hlast : ∀ r ∈ sampleReferences, ';' ∉ r.1.dropLast := by decide
    have hmem : ';' ∈ (name ++ ';' :: c :: rest).dropLast := by
      rw [List.dropLast_append_of_ne_nil (List.cons_ne_nil _ _)]
      exact List.mem_append_right _ List.mem_cons_self
    have hnone : sampleReferences.lookup (name ++ ';' :: c :: rest) = none := by
      refine List.lookup_eq_none_iff.mpr fun r hr => ?_
      rw [bne_iff_ne]
      intro heq
      rw [heq] at hmem
      exact hlast r hr hmem
    exact hnone

def hostilePage : ConsentPage := {
  requestUri := "urn:ietf:params:oauth:request_uri:req-1"
  clientName := "\"><script>alert(1)</script>"
  clientId := "https://evil.example/client-metadata.json?a=1&lt=2"
  scopes := ["atproto", "</ul><form action='https://evil.example'>"]
  loginHint := some "\" autofocus onfocus=\"alert(1)"
  error := none }

theorem hostilePage_reads :
    (AuthorizeResponse.page hostilePage).html.bind (Html.tokens sampleNames)
        = (AuthorizeResponse.page hostilePage).tokens
      ∧ .text .data "\"><script>alert(1)</script>".toList ∈ hostilePage.tokens :=
  ⟨authorizePages_read sampleNames_laws (.page hostilePage), by decide +kernel⟩

end Stelyph
