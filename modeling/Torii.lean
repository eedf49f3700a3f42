import Torii.Acme.Domains
import Torii.Acme.Reset
import Torii.Api.Access
import Torii.Api.RecentLogs
import Torii.Api.Setup
import Torii.Api.Tickers
import Torii.ApiKeys.Grants
import Torii.ApiKeys.Revocation
import Torii.App.CacheSubsystem
import Torii.App.HotSwap
import Torii.App.SSEBroker
import Torii.Auth.StoredHash
import Torii.Bus.Delivery
import Torii.Bus.Restart
import Torii.Bus.Unsubscribing
import Torii.Metrics.Collecting
import Torii.Metrics.NameTree
import Torii.Metrics.Percentiles
import Torii.Middleware.AddressForm
import Torii.Middleware.BreakerRaces
import Torii.Middleware.BreakerRuns
import Torii.Middleware.Coraza
import Torii.Middleware.CountryRuns
import Torii.Middleware.HeaderPolicy
import Torii.Middleware.HoneyPot
import Torii.Middleware.Negotiation
import Torii.Middleware.OptionForms
import Torii.Middleware.Redirect
import Torii.Middleware.StaticFiles
import Torii.Middleware.TotpScopes
import Torii.Middleware.Traffic
import Torii.Proxy.HostForms
import Torii.Proxy.HostRouting
import Torii.Proxy.Listening
import Torii.Proxy.Order
import Torii.Proxy.PathConflicts
import Torii.Proxy.StripPrefix
import Torii.Proxy.TrustedLayers
import Torii.Ratelimit.Expiry
import Torii.Ratelimit.Rate
import Torii.Totp.Manager
import Torii.Util.CacheSweeps
