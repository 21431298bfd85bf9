import Convers.Host.ChatLog
import Convers.Host.Listings

/-!
# The pages of the web tile

The page of a channel shows who is on it, its topic and its modes, as a snapshot of the hub has
them, and the last messages of the channel, as the chat log has them
(`Convers.WebChat.channelPage`). The page `who` is a snapshot only (`Convers.WebChat.whoPage`). The
style sheet is a constant of the source and an argument here.
-/

namespace Convers

namespace WebChat

/-- Lines of a page. -/
def lines (texts : List Text) : Text := [lf].intercalate texts

/-! ### The parts of a page -/

/-- Two digits. -/
def twoDigits (n : ℕ) : Text := if n < 10 then '0' :: decimal n else decimal n

/-- The time of a row, as `HH:mm`. -/
def clock (utc : ℤ) : Text :=
  let minutes := (utc / 60 % 1440).toNat
  twoDigits (minutes / 60) ++ ':' :: twoDigits (minutes % 60)

/-- A row of `RenderScrollback`. -/
def renderEntry (e : ChatLogRow) : Text :=
  let time := htmlEncode (clock e.utc)
  let origin := htmlEncode (match e.origin with
    | .ofLocal => "local".toList
    | .network => "net".toList)
  if e.kind = .presence then
    "<div class=\"ev\"><span class=\"t\">".toList ++ time ++
      "</span> <span class=\"who2\">".toList ++ htmlEncode e.fromCall ++
        "</span> <span class=\"dim\">".toList ++ htmlEncode e.text ++ "</span></div>".toList
  else
    "<div class=\"msg\"><span class=\"t\">".toList ++ time ++
      "</span> <span class=\"from\" data-o=\"".toList ++ origin ++ "\">".toList ++
        htmlEncode e.fromCall ++ ":</span> ".toList ++ htmlEncode e.text ++ "</div>".toList

/-- `RenderScrollback`: the rows come newest first, and the newest is shown last. -/
def renderScrollback (log : List ChatLogRow) : Text :=
  if log.length = 0 then
    "<div class=\"log\"><p class=\"dim\">No messages yet on this channel.</p></div>".toList
  else "<div class=\"log\">".toList ++ log.reverse.flatMap renderEntry ++ "</div>".toList

/-- The words of `DescribeModes`. -/
def modeWords : List (ModeFlag × Text) :=
  [(.secretFlag, "secret".toList), (.privateFlag, "private".toList),
    (.topicLocked, "topic-locked".toList), (.invisible, "invisible".toList),
    (.moderated, "moderated".toList), (.localFlag, "local".toList)]

/-- `DescribeModes`. -/
def describeModes (modes : ChannelMode) : Text :=
  if modes = ∅ then "(no modes set)".toList
  else ", ".toList.intercalate ((modeWords.filter (·.1 ∈ modes)).map Prod.snd)

/-- A user of `RenderPresent`. -/
def renderUser (me : Text) (u : NetworkUser) : Text :=
  let meTag := if Callsigns.equal u.name me then " <span class=\"dim\">(you)</span>".toList else []
  let away := if u.isAway then " <span class=\"away\">(away)</span>".toList else []
  let pers := if u.personal.length = 0 then []
    else " <span class=\"dim\">— ".toList ++ htmlEncode u.personal ++ "</span>".toList
  "<li><b>".toList ++ htmlEncode u.name ++ "</b>".toList ++ meTag ++ away ++ pers ++ "</li>".toList

/-- `RenderPresent`. -/
def renderPresent (users : List NetworkUser) (me : Text) : Text :=
  if users.length = 0 then "<p class=\"dim\">Nobody here.</p>".toList
  else "<ul class=\"present\">".toList ++ users.flatMap (renderUser me) ++ "</ul>".toList

/-! ### The pages -/

/-- `WebChatOptions`, with the style sheet. -/
structure Options where
  nodeCallsign : Text
  defaultChannel : Int32
  scrollbackRows : Int32
  style : Text

/-- `Page`. -/
def page (o : Options) (pathPrefix call title body : Text) (autoRefresh : Bool) : Text :=
  let refresh := if autoRefresh then "<meta http-equiv=\"refresh\" content=\"15\">".toList else []
  lines
    ["<!doctype html>".toList,
      "<html><head><meta charset=\"utf-8\"><meta name=\"viewport\" ".toList ++
        "content=\"width=device-width,initial-scale=1\">".toList,
      "<title>".toList ++ htmlEncode o.nodeCallsign ++ " convers — ".toList ++ htmlEncode title ++
        "</title>".toList ++ refresh ++ o.style ++ "</head>".toList,
      "<body><main>".toList,
      "<h1>".toList ++ htmlEncode o.nodeCallsign ++
        " <span class=\"dim\">convers</span></h1>".toList,
      "<nav><a href=\"".toList ++ (pathPrefix ++ "/".toList) ++
        "\">Channel</a> · <a href=\"".toList ++ (pathPrefix ++ "/who".toList) ++
          "\">Who</a>".toList,
      "<span class=\"dim\">— de ".toList ++ htmlEncode call ++ "</span></nav>".toList,
      body,
      "</main></body></html>".toList]

/-- What the page of a channel shows, but for the messages. -/
structure ChannelView where
  options : Options
  pathPrefix : Text
  call : Text
  channel : Int32
  present : List NetworkUser
  topic : Text
  topicBy : Text
  modes : ChannelMode
  isOperator : Bool
  operResult : Option Text

namespace ChannelView

variable (v : ChannelView)

/-- The topic, or that there is none. -/
def topicLine : Text :=
  if v.topic.length = 0 then "<span class=\"dim\">no topic set</span>".toList
  else htmlEncode v.topic ++
    if v.topicBy.length = 0 then []
    else " <span class=\"dim\">(set by ".toList ++ htmlEncode v.topicBy ++ ")</span>".toList

/-- The modes, as letters and in words. -/
def modeLine : Text :=
  "<code>".toList ++ htmlEncode (ChannelModes.toWire v.modes) ++ "</code> ".toList ++
    htmlEncode (describeModes v.modes)

/-- What came of a login as an operator. -/
def operFeedback : Text :=
  match v.operResult with
  | some result =>
    if result = "ok".toList then "<p class=\"ok\">You are now an operator.</p>".toList
    else if result = "fail".toList then "<p class=\"err\">Operator access denied.</p>".toList
    else []
  | none => []

/-- The form for the modes, or the one to become an operator. -/
def control : Text :=
  if v.isOperator then
    lines
      ["<p class=\"dim\">You are an operator.</p>".toList,
        "<form method=\"post\" action=\"".toList ++ (v.pathPrefix ++ "/mode".toList) ++
          "\" class=\"modeform\">".toList,
        "<input name=\"options\" placeholder=\"+mt / -s …\" size=\"10\">".toList,
        "<button type=\"submit\">Set modes</button></form>".toList]
  else
    lines
      ["<form method=\"post\" action=\"".toList ++ (v.pathPrefix ++ "/oper".toList) ++
          "\" class=\"operform\">".toList,
        "<input name=\"secret\" type=\"password\" ".toList ++
          "placeholder=\"operator secret\" size=\"14\">".toList,
        "<button type=\"submit\">Become operator</button></form>".toList]

/-- The body above the messages. -/
def above : Text :=
  let channel := decimal v.channel.toInt
  lines
    ["<div class=\"bar\">".toList,
      "<form method=\"post\" action=\"".toList ++ (v.pathPrefix ++ "/join".toList) ++
        "\" class=\"inline\">".toList,
      "<label>Channel <input name=\"channel\" value=\"".toList ++ channel ++
        "\" size=\"6\" inputmode=\"numeric\"></label>".toList,
      "<button type=\"submit\">Go</button></form>".toList,
      "<span class=\"ch\">on channel <b>".toList ++ channel ++ "</b></span>".toList,
      "</div>".toList,
      "<div class=\"cols\">".toList,
      "<section class=\"chat\">".toList,
      "<h2>Channel ".toList ++ channel ++ "</h2>".toList,
      "<p class=\"topic\">Topic: ".toList ++ v.topicLine ++ "</p>".toList,
      "<p class=\"modes\">Modes: ".toList ++ v.modeLine ++ "</p>".toList,
      "<form method=\"post\" action=\"".toList ++ (v.pathPrefix ++ "/topic".toList) ++
        "\" class=\"topicform\">".toList,
      "<input name=\"topic\" placeholder=\"set the topic…\" size=\"48\">".toList,
      "<button type=\"submit\">Set topic</button></form>".toList]

/-- The body below the messages. -/
def below : Text :=
  lines
    ["<form method=\"post\" action=\"".toList ++ (v.pathPrefix ++ "/say".toList) ++
        "\" class=\"say\">".toList,
      "<input name=\"text\" placeholder=\"type a message and press Enter…\" ".toList ++
        "autocomplete=\"off\" autofocus size=\"60\" required>".toList,
      "<button type=\"submit\">Send</button></form>".toList,
      "</section>".toList,
      "<aside class=\"who\">".toList,
      "<h3>Here now <span class=\"dim\">(".toList ++ decimal v.present.length ++
        ")</span></h3>".toList,
      renderPresent v.present v.call,
      "<h3>You</h3>".toList,
      v.operFeedback,
      "<form method=\"post\" action=\"".toList ++ (v.pathPrefix ++ "/away".toList) ++
        "\" class=\"awayform\">".toList,
      "<input name=\"text\" placeholder=\"away message (blank = back)\" size=\"18\">".toList,
      "<button type=\"submit\">Set away</button></form>".toList,
      v.control,
      "<h3>Private message</h3>".toList,
      "<form method=\"post\" action=\"".toList ++ (v.pathPrefix ++ "/msg".toList) ++
        "\" class=\"pm\">".toList,
      "<input name=\"to\" placeholder=\"callsign\" size=\"10\" required>".toList,
      "<input name=\"text\" placeholder=\"message\" size=\"20\" required>".toList,
      "<button type=\"submit\">Send</button></form>".toList,
      "</aside>".toList,
      "</div>".toList]

end ChannelView

/-- The page `ChannelViewAsync` renders. -/
def channelPage (v : ChannelView) (log : List ChatLogRow) : Text :=
  page v.options v.pathPrefix v.call ("Channel ".toList ++ decimal v.channel.toInt)
    (lines [v.above, renderScrollback log, v.below]) true

/-- The page `WhoAsync` renders. -/
def whoPage (o : Options) (pathPrefix call : Text) (channel : Int32)
    (here network : List NetworkUser) : Text :=
  page o pathPrefix call "Who".toList
    (lines
      ["<h2>Who</h2>".toList,
        "<h3>On channel ".toList ++ decimal channel.toInt ++ " <span class=\"dim\">(".toList ++
          decimal here.length ++ ")</span></h3>".toList,
        renderPresent here call,
        "<h3>On the network <span class=\"dim\">(".toList ++ decimal network.length ++
          ")</span></h3>".toList,
        renderNetwork network call]) false

end WebChat

end Convers
