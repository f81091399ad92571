import WkcBrowser.Cache.RoundTrip
import WkcBrowser.Cache.Parse
import WkcBrowser.Cache.Capacity
import WkcBrowser.Cache.Keys
import WkcBrowser.Net.Gate
import WkcBrowser.Net.CachedLoads
import WkcBrowser.Mhtml.RoundTrip
import WkcBrowser.Mhtml.Scan
import WkcBrowser.Net.Passwords
import WkcBrowser.Net.ProxyFilters
import WkcBrowser.Net.FormDataStream
import WkcBrowser.Net.AuthenticateHeader
import WkcBrowser.Net.Cookies
import WkcBrowser.Net.SyncLoad
import WkcBrowser.Wtf.TextCodec
import WkcBrowser.Net.Ends
import WkcBrowser.Sql.FileLocks
import WkcBrowser.Cache.BodyRead
import WkcBrowser.Cache.Eviction
import WkcBrowser.Net.Certificates
import WkcBrowser.Net.SocketConnecting
import WkcBrowser.Graphics.Image
import WkcBrowser.Inspector.Frames
import WkcBrowser.Inspector.Connections
import WkcBrowser.Inspector.PageList
import WkcBrowser.Inspector.Resources
import WkcBrowser.Inspector.HttpRequests
import WkcBrowser.Sql.Files
import WkcBrowser.Net.Download
import WkcBrowser.Net.EncryptKey
import WkcBrowser.Net.ServerCertChain
import WkcBrowser.Net.Addresses
import WkcBrowser.Graphics.MpoLoading
import WkcBrowser.Cache.Clearing
import WkcBrowser.Net.OcspProxy
import WkcBrowser.Cache.FileNames
import WkcBrowser.Rss.IsoDates
import WkcBrowser.Rss.Items
import WkcBrowser.Graphics.PixelReadback
import WkcBrowser.Graphics.TileDrawing
import WkcBrowser.Graphics.PathPolygons
import WkcBrowser.Graphics.HitTest
import WkcBrowser.Graphics.PathBounds
import WkcBrowser.Graphics.DirtyRects
import WkcBrowser.Graphics.Kana
import WkcBrowser.Graphics.PathAppend
import WkcBrowser.Graphics.PathTransforms
import WkcBrowser.Graphics.LayerTree
import WkcBrowser.Graphics.Offscreens
import WkcBrowser.Net.SocketBytes
import WkcBrowser.Net.CookiePolicy
import WkcBrowser.Cache.HttpEquiv
import WkcBrowser.Audio.Destination
import WkcBrowser.Audio.Pcm
import WkcBrowser.Wtf.Threads
import WkcBrowser.Wtf.CaseConversion
import WkcBrowser.Wtf.Collator
import WkcBrowser.Editing.SelectionHandles
import WkcBrowser.Focus.Picks
import WkcBrowser.Focus.Twice
import WkcBrowser.Focus.Holding
import WkcBrowser.Focus.ArrowKeys
import WkcBrowser.History.BackForwardList
import WkcBrowser.Net.CookieText
import WkcBrowser.Platform.SharedBuffer
import WkcBrowser.Focus.TabOrder
import WkcBrowser.Focus.Documents
import WkcBrowser.Focus.FirstLast
import WkcBrowser.Lib.Turns
import WkcBrowser.Focus.RectSearch
import WkcBrowser.Focus.Entering
import WkcBrowser.Focus.Sideways
import WkcBrowser.Focus.Nearest
import WkcBrowser.CustomJS.CallBack
import WkcBrowser.Helpers.Strings
import WkcBrowser.Graphics.ClipStack
import WkcBrowser.Wtf.MainThread
import WkcBrowser.Wtf.HashMap
import WkcBrowser.Platform.Utf8Texts
